import EntityQuery.Proofs.Engine.Queries

/-!
# Queries without the result cache

Run without the cache, every query answers the set that its constructors denote, on every store and
from every engine.  The reactions of keys are then promises about what queries answer: a result that
is patched as its key reacts is the answer on the changed store.
-/

namespace EntityQuery

/-- Without the cache, a query lists identities from every engine. -/
def Query.Lists (query : Query) (store : MemoryStore) (ids : List EntityId) : Prop :=
  ∀ engine : Engine, (query.materialize (store.transaction false) engine).1 = .ok ids

theorem Action.Succeeds.answer_eq {α : Type} {keeps : ResultCache → Prop} {action : Action α}
    {expected : α} (succeeds : action.Succeeds keeps (· = expected)) {engine : Engine}
    (kept : keeps engine.cache) : (action engine).1 = .ok expected := by
  obtain ⟨value, after, step, rfl, _⟩ := succeeds engine kept
  rw [step]

theorem Query.lists_answer (query : Query) (store : MemoryStore) :
    query.Lists store (query.answer store).ids :=
  fun _ => (query.materialize_succeeds store false).answer_eq nofun

theorem QueryTree.mem_answer_build {store : MemoryStore} {tree : QueryTree} {id : EntityId} :
    id ∈ tree.build.answer store ↔ id ∈ tree.denoted store := by
  rw [Query.mem_answer, tree.members_build store]

/--
Without the cache, a tree of constructors answers the ascending list of the entities that it denotes,
the same list as a set, its length, and whether it is empty.
-/
theorem QueryTree.uncached_requests (store : MemoryStore) (tree : QueryTree) :
    ∃ ids : IdSet, ids.ids.Pairwise (· < ·) ∧ (∀ id, id ∈ ids.ids ↔ id ∈ tree.denoted store) ∧
      ∀ engine : Engine,
        (tree.build.materialize (store.transaction false) engine).1 = .ok ids.ids ∧
          (tree.build.toSet (store.transaction false) engine).1 = .ok ids ∧
          (tree.build.count (store.transaction false) engine).1 = .ok ids.ids.length ∧
          (tree.build.isEmpty (store.transaction false) engine).1 = .ok ids.ids.isEmpty := by
  refine ⟨tree.build.answer store, IdSet.ascending _, fun _ => mem_answer_build, ?_⟩
  intro engine
  refine ⟨?_, ?_, ?_, ?_⟩
  · exact (tree.build.materialize_succeeds store false).answer_eq nofun
  · exact (tree.build.toSet_succeeds store false).answer_eq nofun
  · exact (tree.build.count_succeeds store false).answer_eq nofun
  · exact (tree.build.isEmpty_succeeds store false).answer_eq nofun

/-! ## Reactions -/

/--
What the reactions of a query promise about its answers.  The result is the one that the query lists
on the store; each promise is about the list on the changed store.
-/
structure Query.ReactsSoundly (query : Query) (store : MemoryStore) (result : IdSet) : Prop where
  listed : query.Lists store result.ids
  added_insert : ∀ id, id ∉ store.entities → query.key.addedReaction id = .insert →
    query.Lists (store.addEntity id) (result.insert id).ids
  added_ignore : ∀ id, id ∉ store.entities → query.key.addedReaction id = .ignore →
    query.Lists (store.addEntity id) result.ids
  added_never_removes : ∀ id, query.key.addedReaction id ≠ .remove
  deleted_remove : ∀ id, query.key.deletedReaction id = .remove →
    query.Lists (store.removeEntity id) (result.erase id).ids
  deleted_ignore : ∀ id, query.key.deletedReaction id = .ignore →
    query.Lists (store.removeEntity id) result.ids
  deleted_never_inserts : ∀ id, query.key.deletedReaction id ≠ .insert
  linked_ignore : ∀ source name target, source ∈ store.entities →
    query.key.linkReaction source.typeId (store.addLink source name target).1 = .ignore →
      query.Lists (store.addLink source name target).2 result.ids

namespace Query

variable {query : Query} {store : MemoryStore} {id : EntityId}

/-- A set with the members of a query is what the query lists. -/
theorem lists_of_mem_iff {result : IdSet}
    (sameMembers : ∀ other, other ∈ result ↔ other ∈ query.members store) :
    query.Lists store result.ids := by
  have same : result = query.answer store := by
    ext other
    rw [sameMembers, mem_answer]
  rw [same]
  exact query.lists_answer store

theorem reactsSoundly (stored : store.SourcesStored) (query : Query) :
    query.ReactsSoundly store (query.answer store) where
  listed := query.lists_answer store
  added_insert id missing inserts := by
    have fits := addedReaction_fits (stored.absent missing) query
    rw [inserts] at fits
    have gained : query.members (store.addEntity id) = query.members store ∪ {id} := fits
    apply lists_of_mem_iff
    intro other
    rw [IdSet.mem_insert, mem_answer, gained, Set.mem_union, Set.mem_singleton_iff, or_comm]
  added_ignore id missing ignores := by
    have fits := addedReaction_fits (stored.absent missing) query
    rw [ignores] at fits
    have unchanged : query.members (store.addEntity id) = query.members store := fits
    apply lists_of_mem_iff
    intro other
    rw [mem_answer, unchanged]
  added_never_removes id := QueryKey.addedReaction_ne_remove id query.key
  deleted_remove id removes := by
    have fits := deletedReaction_fits store id query
    rw [removes] at fits
    have lost : query.members (store.removeEntity id) = query.members store \ {id} := fits
    apply lists_of_mem_iff
    intro other
    rw [IdSet.mem_erase, mem_answer, lost, Set.mem_sdiff, Set.mem_singleton_iff]
  deleted_ignore id ignores := by
    have fits := deletedReaction_fits store id query
    rw [ignores] at fits
    have unchanged : query.members (store.removeEntity id) = query.members store := fits
    apply lists_of_mem_iff
    intro other
    rw [mem_answer, unchanged]
  deleted_never_inserts id := QueryKey.deletedReaction_ne_insert id query.key
  linked_ignore source name target _ ignores := by
    have changed := store.linksChanged_addLink source name target
    have unchanged := members_congr_store (QueryKey.sameIndexes_of_linksChanged changed ignores)
    apply lists_of_mem_iff
    intro other
    rw [mem_answer, unchanged]

/-- The reactions of a union on a store with one link. -/
theorem reactsSoundly_with_link :
    ((MemoryStore.empty.addEntity ⟨1, 1⟩).addLink ⟨1, 1⟩ "owner" ⟨2, 7⟩).2.SourcesStored ∧
      ((ofType 1).union (withLink 2 1)).ReactsSoundly
        ((MemoryStore.empty.addEntity ⟨1, 1⟩).addLink ⟨1, 1⟩ "owner" ⟨2, 7⟩).2
        (((ofType 1).union (withLink 2 1)).answer
          ((MemoryStore.empty.addEntity ⟨1, 1⟩).addLink ⟨1, 1⟩ "owner" ⟨2, 7⟩).2) := by
  have empty : MemoryStore.empty.SourcesStored := nofun
  have stored := (empty.addEntity ⟨1, 1⟩).addLink "owner" ⟨2, 7⟩
    (IdSet.mem_insert.2 (.inl rfl))
  exact ⟨stored, reactsSoundly stored _⟩

end Query

end EntityQuery
