import EntityQuery.Proofs.Query.Members
import EntityQuery.Proofs.Reader.Combination
import EntityQuery.Proofs.Reader.Scan

/-!
# The answers of queries

The set that a query stands for, as an ordered set.  It is put together from what the readers of the
query deliver, so running a query can be compared with it step by step; and as sets with the same
members are equal, it is the only ordered set with these members.
-/

namespace EntityQuery

/-- The entities of a type as an ordered set. -/
def MemoryStore.idsOf (store : MemoryStore) (typeId : TypeId) : IdSet where
  ids := store.entitiesOf typeId
  ascending := store.entitiesOf_ascending typeId

namespace Selection

/-- The ordered set of the entities that a selection stands for. -/
def answer (store : MemoryStore) : Selection → IdSet
  | .ofType typeId => store.idsOf typeId
  | .withLink typeId linkId => store.sourcesOf typeId linkId
  | .linkedTo typeId linkId target => store.sourcesInto typeId linkId (target.answer store)
  | .union left right => (left.answer store).union (right.answer store)
  | .inter left right => (left.answer store).inter (right.answer store)

theorem mem_answer {store : MemoryStore} {selection : Selection} {id : EntityId} :
    id ∈ selection.answer store ↔ id ∈ selection.members store := by
  induction selection generalizing id with
  | ofType typeId => rfl
  | withLink typeId linkId => exact MemoryStore.mem_sourcesOf
  | linkedTo typeId linkId target inductionHypothesis =>
      rw [answer, MemoryStore.mem_sourcesInto]
      simp only [inductionHypothesis]
      rfl
  | union left right leftHypothesis rightHypothesis =>
      rw [answer, IdSet.mem_union, leftHypothesis, rightHypothesis]
      rfl
  | inter left right leftHypothesis rightHypothesis =>
      rw [answer, IdSet.mem_inter, leftHypothesis, rightHypothesis]
      rfl

/-- A link filter without targets has no results. -/
theorem answer_linkedTo_of_isEmpty {store : MemoryStore} {typeId : TypeId} {linkId : LinkId}
    {target : Selection} (noTargets : (target.answer store).isEmpty = true) :
    ((linkedTo typeId linkId target).answer store).ids = [] := by
  rw [List.eq_nil_iff_forall_not_mem]
  intro id member
  obtain ⟨edge, _, _, targeted⟩ := MemoryStore.mem_sourcesInto.1 member
  have nothing : (target.answer store).ids = [] := List.isEmpty_iff.1 noTargets
  rw [IdSet.mem_def, nothing] at targeted
  cases targeted

end Selection

namespace Query

/-- The ordered set of the entities that a query stands for. -/
def answer (store : MemoryStore) : Query → IdSet
  | .empty => .empty
  | .select selection => selection.answer store

theorem mem_answer {store : MemoryStore} {query : Query} {id : EntityId} :
    id ∈ query.answer store ↔ id ∈ query.members store := by
  cases query with
  | empty => simp [answer, members]
  | select selection => exact Selection.mem_answer

/-- Queries that stand for the same entities have the same answer. -/
theorem answer_eq_of_members_eq {first second : MemoryStore} {left right : Query}
    (same : left.members first = right.members second) :
    left.answer first = right.answer second := by
  ext id
  rw [mem_answer, mem_answer, same]

end Query

end EntityQuery
