import EntityQuery.Engine.Basic
import EntityQuery.Query.Basic

/-!
# Running queries

A query runs in a transaction: a view of the store and the permission to use the result cache.  With
it, a query that may be cached is served from its kept result or computed and published; the operands
of a query follow the same rule, each for itself.
-/

namespace EntityQuery

structure Transaction where
  view : StoreView
  cached : Bool

namespace Transaction

/-- Whether a selection is served through the cache. -/
def serves (transaction : Transaction) (selection : Selection) : Bool :=
  transaction.cached && selection.cacheable

/-- Open an index, which is given for every number of openings tried before. -/
def openIndex (index : Nat → Except QueryError (List Entry)) (kind : ScanKind) :
    Action (List Entry) := do
  let number ← Action.enterOpening
  let entries ← Action.ofExcept (index number)
  Action.tell (.event (.scan kind))
  return entries

/-- The result of a selection, kept or computed from its raw traversal. -/
def result (transaction : Transaction) (selection : Selection) (raw : Action Traversal) :
    Action CachedResult := do
  let (_, result) ← Action.getOrCompute selection.key transaction.view.version do
    Action.collect (← raw)
  return result

/-- A traversal of a selection: of the view of its result if it is served through the cache. -/
def traversal (transaction : Transaction) (selection : Selection) (raw : Action Traversal) :
    Action Traversal :=
  if transaction.serves selection then do
    return .ofSet (← Action.readView (← transaction.result selection raw))
  else
    raw

def set (transaction : Transaction) (selection : Selection) (raw : Action Traversal) :
    Action IdSet :=
  if transaction.serves selection then do
    Action.readView (← transaction.result selection raw)
  else do
    return .ofList (← Action.collect (← raw))

/-- Open two children, left first; the left one is given up if the right one fails. -/
def both (combine : Traversal → Traversal → Traversal) (left right : Action Traversal) :
    Action Traversal := do
  let leftTraversal ← left
  let rightTraversal ← Action.orRetire leftTraversal right
  return combine leftTraversal rightTraversal

/--
A traversal of a selection on its indexes.  The operands of unions and intersections, and the targets
of a link filter, may still come from the cache.  A filter without targets opens no index.
-/
def raw (transaction : Transaction) : Selection → Action Traversal
  | .ofType typeId => do
      return .ofEntities typeId
        (← openIndex (fun number => transaction.view.entities number typeId) .entities)
  | .withLink typeId linkId => do
      return .ofSources typeId
        (← openIndex (fun number => transaction.view.links number typeId linkId) .links)
  | .linkedTo typeId linkId target => do
      let targets ← transaction.set target (transaction.raw target)
      if targets.isEmpty then
        return .empty
      else
        return .ofJoin typeId
          (← openIndex (fun number => transaction.view.links number typeId linkId) .links) targets
  | .union left right =>
      both .union (transaction.traversal left (transaction.raw left))
        (transaction.traversal right (transaction.raw right))
  | .inter left right =>
      both .intersection (transaction.traversal left (transaction.raw left))
        (transaction.traversal right (transaction.raw right))

end Transaction

namespace Query

variable (transaction : Transaction)

def traverse : Query → Action Traversal
  | .empty => return .empty
  | .select selection => transaction.traversal selection (transaction.raw selection)

/-- All identities in ascending order. -/
def materialize (query : Query) : Action (List EntityId) := do
  Action.collect (← query.traverse transaction)

def toSet : Query → Action IdSet
  | .empty => return .empty
  | .select selection => transaction.set selection (transaction.raw selection)

/-- The kept result of a selection that is served through the cache. -/
def kept (selection : Selection) : Action (Option CachedResult) :=
  if transaction.serves selection then
    Action.onCache fun cache => cache.lookup selection.key transaction.view.version
  else
    return none

/-- The number of entities of a type, asked of the store directly. -/
def storeCount (typeId : TypeId) : Action Nat := do
  Action.tell (.event .fastCount)
  match transaction.view.count typeId with
  | .refused error => throw error
  | .called answer =>
      Action.enterCount
      Action.ofExcept answer

/-- Whether a traversal has anything to yield; it is given up afterwards. -/
def probe (traversal : Traversal) : Action Bool := do
  let (answer, asked) := traversal.hasNext
  Action.retire asked.retire
  Action.ofExcept answer

/-- The number of runs of equal neighbours. -/
def countRuns : List EntityId → Nat
  | [] => 0
  | [_] => 1
  | first :: second :: rest =>
      if first = second then countRuns (second :: rest) else countRuns (second :: rest) + 1

def isEmpty : Query → Action Bool
  | .empty => return true
  | .select selection => do
      match ← kept transaction selection with
      | some result => return result.isEmpty
      | none =>
          match selection with
          | .ofType typeId => return (← storeCount transaction typeId) == 0
          | _ => return !(← probe (← transaction.raw selection))

/-- The number of results.  The cache is asked at most once for the query itself. -/
def count : Query → Action Nat
  | .empty => return 0
  | .select (.ofType typeId) => do
      match ← kept transaction (.ofType typeId) with
      | some result => return result.size
      | none => storeCount transaction typeId
  | .select selection =>
      if transaction.serves selection then do
        return (← transaction.result selection (transaction.raw selection)).size
      else do
        return countRuns (← Action.collect (← transaction.raw selection))

/--
The entities of a query that have a link of a name into another query.  A link name that nothing has,
like an empty query, gives the empty query without any access to an index.
-/
def findLinks (query target : Query) (linkName : String) : Action Query :=
  match query with
  | .empty => return .empty
  | .select selection => do
      match ← Action.ofExcept (transaction.view.resolve linkName) with
      | none =>
          Action.tell (.note (.unknownLink linkName))
          return .empty
      | some linkId =>
          match selection with
          | .ofType typeId => return Query.linkedTo typeId linkId target
          | _ =>
              match selection.singleType? with
              | some typeId =>
                  return (Query.select selection).inter (Query.linkedTo typeId linkId target)
              | none => throw (.severalTypes selection.key.canonical)

end Query

end EntityQuery
