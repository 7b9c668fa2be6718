import EntityQuery.Index.Cursor

/-!
# What a transaction shows of a store

Queries read a store through one transaction: at one version they can open the index of the entities
of a type and the index of a link of a type, ask for the number of entities of a type, and look a
link name up.  Each of these may fail, and an index that was opened once may fail to open again:
what an opening answers depends on its number.
-/

namespace EntityQuery

/-- The answer to a call for the number of entities. -/
inductive CountAnswer where
  /-- The call was refused before it reached an index. -/
  | refused (error : QueryError)
  /-- The call was made; its answer may still be an error. -/
  | called (answer : Except QueryError Nat)

/-- One read transaction of a store. -/
structure StoreView where
  version : Nat
  /-- The entries of the entity index of a type, for the number of openings tried before. -/
  entities : Nat → TypeId → Except QueryError (List Entry)
  /-- The entries of the index of a link of a type, for the number of openings tried before. -/
  links : Nat → TypeId → LinkId → Except QueryError (List Entry)
  count : TypeId → CountAnswer
  /-- The number of a link name, if it has one. -/
  resolve : String → Except QueryError (Option LinkId)

end EntityQuery
