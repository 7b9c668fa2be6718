import EntityQuery.Query.Key

/-!
# Reactions of cached results

When the store changes, each cached result reacts by its key alone: it ignores the change, takes the
changed entity in, drops it, or is thrown away.  A result must be thrown away whenever the key
cannot tell what the change does to it.
-/

namespace EntityQuery

/-- What a cached result does about one change. -/
inductive Reaction where
  | ignore
  | insert
  | remove
  | invalidate
deriving DecidableEq, Repr

namespace Reaction

def label : Reaction → String
  | .ignore => "ignore"
  | .insert => "insert"
  | .remove => "remove"
  | .invalidate => "invalidate"

/-- Invalidation of any operand wins; otherwise `found` wins if any operand shows it. -/
def ofAny (found : Reaction) (operands : List Reaction) : Reaction :=
  if operands.contains .invalidate then .invalidate
  else if operands.contains found then found
  else .ignore

/-- Invalidation of any operand wins; otherwise the insertion needs every operand, of which there
must be one. -/
def ofAllInserting (operands : List Reaction) : Reaction :=
  if operands.contains .invalidate then .invalidate
  else if operands ≠ [] ∧ operands.all (· = .insert) then .insert
  else .ignore

end Reaction

namespace QueryKey

/-- What a new entity does to a node, from what it does to the operands.  A new entity has no
links yet. -/
def addedStep (kind : QueryKind) (operands : List Reaction) : Reaction :=
  match kind with
  | .empty => .ignore
  | .allEntities => .insert
  | .entitiesWithLink => .ignore
  | .filterLinks => .invalidate
  | .union => .ofAny .insert operands
  | .intersect => .ofAllInserting operands

/-- What a removed entity does to a node, from what it does to the operands. -/
def deletedStep (kind : QueryKind) (operands : List Reaction) : Reaction :=
  match kind with
  | .empty => .ignore
  | .allEntities | .entitiesWithLink => .remove
  | .filterLinks => .invalidate
  | .union | .intersect => .ofAny .remove operands

def addedReaction (id : EntityId) : QueryKey → Reaction :=
  recurse fun key parts decoration =>
    if key.matchesType id.typeId then
      addedStep key.kind (operandValues parts decoration)
    else
      .ignore

def deletedReaction (id : EntityId) : QueryKey → Reaction :=
  recurse fun key parts decoration =>
    if key.matchesType id.typeId then
      deletedStep key.kind (operandValues parts decoration)
    else
      .ignore

/-- The reaction to a change of a link of some entity of a type. -/
def linkReaction (typeId : TypeId) (linkId : LinkId) (key : QueryKey) : Reaction :=
  if key.matchesLink typeId linkId then .invalidate else .ignore

end QueryKey

end EntityQuery
