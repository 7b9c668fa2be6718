import EntityQuery.Query.Key

/-!
# Queries

A query is a lazy description of a set of entities.  The empty query never occurs inside another
one, because combining with it simplifies at once: a union keeps the other operand, and an
intersection or a link filter is empty.  The type says so: a query is empty or a `Selection`, and
the operands of a selection are selections.
-/

namespace EntityQuery

/-- A query other than the empty one. -/
inductive Selection where
  | ofType (typeId : TypeId)
  /-- The entities of a type that have at least one link of a name. -/
  | withLink (typeId : TypeId) (linkId : LinkId)
  /-- The entities of a type with a link of a name into the target selection. -/
  | linkedTo (typeId : TypeId) (linkId : LinkId) (target : Selection)
  | union (left right : Selection)
  | inter (left right : Selection)
deriving DecidableEq, Repr

inductive Query where
  | empty
  | select (selection : Selection)
deriving DecidableEq, Repr, Inhabited

namespace Selection

def kind : Selection → QueryKind
  | .ofType _ => .allEntities
  | .withLink _ _ => .entitiesWithLink
  | .linkedTo _ _ _ => .filterLinks
  | .union _ _ => .union
  | .inter _ _ => .intersect

/-- Whether results may be cached: all do but those that depend on link targets. -/
def cacheable : Selection → Bool
  | .ofType _ | .withLink _ _ => true
  | .linkedTo _ _ _ => false
  | .union left right | .inter left right => left.cacheable && right.cacheable

/-- Whether the size is known without walking an index. -/
def countsFast : Selection → Bool
  | .ofType _ => true
  | _ => false

/-- The type that every result has, where there is one. -/
def singleType? : Selection → Option TypeId
  | .ofType typeId | .withLink typeId _ | .linkedTo typeId _ _ => some typeId
  | .union left right =>
      match left.singleType?, right.singleType? with
      | some leftType, some rightType => if leftType = rightType then some leftType else none
      | _, _ => none
  | .inter left right => left.singleType?.or right.singleType?

/-- The key of the entities of a type that have a link. -/
def withLinkKey (typeId : TypeId) (linkId : LinkId) : QueryKey :=
  .ofParts .entitiesWithLink [.entityType typeId, .link linkId]

/-- The structural identity of a selection. -/
def key : Selection → QueryKey
  | .ofType typeId => .ofParts .allEntities [.entityType typeId]
  | .withLink typeId linkId => withLinkKey typeId linkId
  | .linkedTo typeId linkId target =>
      .decorated .filterLinks (withLinkKey typeId linkId) target.key
  | .union left right => .ofParts .union [.operand left.key, .operand right.key]
  | .inter left right => .ofParts .intersect [.operand left.key, .operand right.key]

end Selection

namespace Query

/-! ## Constructors -/

def ofType (typeId : TypeId) : Query := .select (.ofType typeId)

/-- The entities of a type that have at least one link of a name. -/
def withLink (typeId : TypeId) (linkId : LinkId) : Query := .select (.withLink typeId linkId)

/-- The entities of a type with a link of a name into the target. -/
def linkedTo (typeId : TypeId) (linkId : LinkId) : Query → Query
  | .empty => .empty
  | .select target => .select (.linkedTo typeId linkId target)

def union : Query → Query → Query
  | .empty, right => right
  | left, .empty => left
  | .select left, .select right => .select (.union left right)

def inter : Query → Query → Query
  | .select left, .select right => .select (.inter left right)
  | _, _ => .empty

/-! ## Capabilities -/

def kind : Query → QueryKind
  | .empty => .empty
  | .select selection => selection.kind

def isEmptyQuery : Query → Bool
  | .empty => true
  | .select _ => false

def cacheable : Query → Bool
  | .empty => false
  | .select selection => selection.cacheable

/-- Whether the size is known without walking an index. -/
def countsFast : Query → Bool
  | .empty => true
  | .select selection => selection.countsFast

/-- Every query yields its results in ascending order. -/
def ascending (_ : Query) : Bool := true

/-- The type that every result has, where there is one. -/
def singleType? : Query → Option TypeId
  | .empty => none
  | .select selection => selection.singleType?

def key : Query → QueryKey
  | .empty => .ofParts .empty []
  | .select selection => selection.key

def debugText (query : Query) : String :=
  "EntityIterable(" ++ query.key.debugText ++ ")"

end Query

end EntityQuery
