import EntityQuery.QueryError

/-!
# Kinds of queries

The closed set of query forms.  Each has a tag, which identifies it in descriptions and in the hash
stream, and a label, which names it in canonical texts and in metrics.
-/

namespace EntityQuery

/-- The form of a query. -/
inductive QueryKind where
  | empty
  | allEntities
  | entitiesWithLink
  | filterLinks
  | union
  | intersect
deriving DecidableEq, Repr

namespace QueryKind

def all : List QueryKind :=
  [.empty, .allEntities, .entitiesWithLink, .filterLinks, .union, .intersect]

def tag : QueryKind → UInt8
  | .empty => 0
  | .allEntities => 1
  | .entitiesWithLink => 2
  | .filterLinks => 3
  | .union => 4
  | .intersect => 5

def label : QueryKind → String
  | .empty => "empty"
  | .allEntities => "all_entities"
  | .entitiesWithLink => "entities_with_link"
  | .filterLinks => "filter_links"
  | .union => "union"
  | .intersect => "intersect"

def ofTag (tag : UInt8) : Except QueryError QueryKind :=
  match all.find? fun kind => kind.tag == tag with
  | some kind => .ok kind
  | none => .error (.unknownKindTag tag)

def ofLabel? (label : String) : Option QueryKind :=
  all.find? fun kind => kind.label == label

/-- Whether the operands of a kind may be exchanged. -/
def isCommutative : QueryKind → Bool
  | .union | .intersect => true
  | _ => false

/-- The numbers of parameters and children in a description of a kind. -/
def arity : QueryKind → Nat × Nat
  | .empty => (0, 0)
  | .allEntities => (1, 0)
  | .entitiesWithLink => (2, 0)
  | .filterLinks => (2, 1)
  | .union | .intersect => (0, 2)

/-- Reading the tag of a kind gives the kind back. -/
@[simp]
theorem ofTag_tag (kind : QueryKind) : ofTag kind.tag = .ok kind := by
  cases kind <;> rfl

/-- Different kinds have different tags. -/
theorem tag_injective {first second : QueryKind} (same : first.tag = second.tag) :
    first = second := by
  have known := ofTag_tag first
  rw [same, ofTag_tag] at known
  exact (Except.ok.inj known).symm

end QueryKind

end EntityQuery
