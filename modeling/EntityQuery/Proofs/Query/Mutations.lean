import EntityQuery.Proofs.Query.Reactions

/-!
# Mutations of a store

The three changes that a result cache is notified of, as relations between stores.  A mutation
speaks of the entities and edges alone: versions and link names may change beside it.

To a key a mutation is one of three things: it invalidates every result, it patches one identity, or
it leaves the set of every query with this key as it is.
-/

namespace EntityQuery

/-- What a notification tells of a change. -/
inductive Mutation where
  | added (id : EntityId)
  | removed (id : EntityId)
  /-- Some edges of a link of a type were changed. -/
  | relinked (typeId : TypeId) (linkId : LinkId)
deriving DecidableEq, Repr

/-- Two stores hold the same entities and edges. -/
structure MemoryStore.SameContent (first second : MemoryStore) : Prop where
  entities : first.entities = second.entities
  edges : first.edges = second.edges

namespace MemoryStore.SameContent

variable {first second third : MemoryStore}

theorem refl (store : MemoryStore) : store.SameContent store := ⟨rfl, rfl⟩

theorem trans (left : first.SameContent second) (right : second.SameContent third) :
    first.SameContent third :=
  ⟨left.entities.trans right.entities, left.edges.trans right.edges⟩

theorem setVersion (store : MemoryStore) (version : Nat) :
    (store.setVersion version).SameContent store := ⟨rfl, rfl⟩

theorem sameIndexes (same : first.SameContent second) (key : QueryKey) :
    key.SameIndexes first second where
  entities typeId _ := by rw [entitiesOf, entitiesOf, same.entities]
  edges typeId _ linkId _ := by rw [edgesOf, edgesOf, same.edges]

end MemoryStore.SameContent

/-! ## Links and stored sources -/

namespace MemoryStore

variable {store : MemoryStore} {id : EntityId}

/-- Numbering a link name changes neither entities nor edges. -/
theorem sameContent_linkNumber (store : MemoryStore) (name : String) :
    (store.linkNumber name).2.SameContent store := by
  rw [linkNumber]
  split
  · exact .refl store
  · exact ⟨rfl, rfl⟩

theorem linksChanged_addLink (store : MemoryStore) (source : EntityId) (name : String)
    (target : EntityId) :
    LinksChanged source.typeId (store.addLink source name target).1 store
      (store.addLink source name target).2 := by
  have numbered := store.sameContent_linkNumber name
  have changed := linksChanged_addEdge (store.linkNumber name).2
    ⟨source, (store.linkNumber name).1, target⟩
  refine ⟨changed.entities.trans numbered.entities, ?_⟩
  intro otherType otherLink different
  refine (changed.edges otherType otherLink different).trans ?_
  rw [edgesOf, edgesOf, numbered.edges]

theorem version_addLink (store : MemoryStore) (source : EntityId) (name : String)
    (target : EntityId) : (store.addLink source name target).2.version = store.version := by
  show (store.linkNumber name).2.version = store.version
  rw [linkNumber]
  split <;> rfl

theorem SourcesStored.addEntity (stored : store.SourcesStored) (id : EntityId) :
    (store.addEntity id).SourcesStored :=
  fun edge member => IdSet.mem_insert.2 (.inr (stored edge member))

theorem SourcesStored.removeEntity (stored : store.SourcesStored) (id : EntityId) :
    (store.removeEntity id).SourcesStored := by
  intro edge member
  obtain ⟨present, different⟩ := List.mem_filter.1 member
  exact IdSet.mem_erase.2 ⟨stored edge present, of_decide_eq_true different⟩

theorem SourcesStored.addLink (stored : store.SourcesStored) {source : EntityId} (name : String)
    (target : EntityId) (present : source ∈ store.entities) :
    (store.addLink source name target).2.SourcesStored := by
  have numbered := store.sameContent_linkNumber name
  intro edge member
  show edge.source ∈ (store.linkNumber name).2.entities
  rw [numbered.entities]
  rcases StoredEdge.mem_insertInto.1 member with rfl | member
  · exact present
  · exact stored edge (numbered.edges ▸ member)

end MemoryStore

theorem Query.members_congr_store {first second : MemoryStore} {query : Query}
    (same : query.key.SameIndexes first second) : query.members first = query.members second := by
  cases query with
  | empty => rfl
  | select selection => exact Selection.members_congr_store same

namespace Mutation

/-- A mutation leads from one store to another. -/
inductive Leads : Mutation → MemoryStore → MemoryStore → Prop
  | added {before after : MemoryStore} {id : EntityId} :
      before.Absent id → after.SameContent (before.addEntity id) → Leads (.added id) before after
  | removed {before after : MemoryStore} {id : EntityId} :
      after.SameContent (before.removeEntity id) → Leads (.removed id) before after
  | relinked {before after : MemoryStore} {typeId : TypeId} {linkId : LinkId} :
      MemoryStore.LinksChanged typeId linkId before after →
        Leads (.relinked typeId linkId) before after

/-- The entity that a mutation of an entity concerns. -/
def entity? : Mutation → Option EntityId
  | .added id | .removed id => some id
  | .relinked _ _ => none

/-- How a result of a key reacts. -/
def reaction (key : QueryKey) : Mutation → Reaction
  | .added id => key.addedReaction id
  | .removed id => key.deletedReaction id
  | .relinked typeId linkId => key.linkReaction typeId linkId

/-- The identity that a mutation patches into results of a key, or out of them. -/
def patch? (key : QueryKey) : Mutation → Option (EntityId × Bool)
  | .added id => if key.addedReaction id = .insert then some (id, true) else none
  | .removed id => if key.deletedReaction id = .remove then some (id, false) else none
  | .relinked _ _ => none

variable {key : QueryKey} {mutation : Mutation} {before after : MemoryStore}

theorem entity?_of_patch? {id : EntityId} {appears : Bool}
    (patches : mutation.patch? key = some (id, appears)) : mutation.entity? = some id := by
  cases mutation with
  | added other | removed other =>
      rw [patch?] at patches
      split at patches
      · cases patches
        rfl
      · cases patches
  | relinked typeId linkId => cases patches

end Mutation

/-! ## What mutations do to queries -/

namespace Query

variable {before after store : MemoryStore} {query : Query}

theorem addedReaction_fits {id : EntityId} (absent : store.Absent id) (query : Query) :
    (query.key.addedReaction id).Fits id (query.members store)
      (query.members (store.addEntity id)) := by
  cases query with
  | empty =>
      rw [key, QueryKey.addedReaction_ofParts]
      simp [Reaction.Fits, members]
  | select selection => exact Selection.addedReaction_fits absent selection

theorem deletedReaction_fits (store : MemoryStore) (id : EntityId) (query : Query) :
    (query.key.deletedReaction id).Fits id (query.members store)
      (query.members (store.removeEntity id)) := by
  cases query with
  | empty =>
      rw [key, QueryKey.deletedReaction_ofParts]
      simp [Reaction.Fits, members]
  | select selection => exact Selection.deletedReaction_fits store id selection

/-- Where a mutation does not invalidate, its patch is all that it does to the set of a query. -/
theorem mem_members_of_leads {mutation : Mutation} (leads : mutation.Leads before after)
    (valid : mutation.reaction query.key ≠ .invalidate) (id : EntityId) :
    id ∈ query.members after ↔
      match mutation.patch? query.key with
      | some (other, appears) => if id = other then appears = true else id ∈ query.members before
      | none => id ∈ query.members before := by
  cases leads with
  | added absent same =>
      rename_i other
      have fits := addedReaction_fits absent query
      rw [← members_congr_store (same.sameIndexes query.key)] at fits
      have adds := QueryKey.addedReaction_ne_remove other query.key
      rw [fits.mem_iff valid, Mutation.patch?]
      by_cases inserts : query.key.addedReaction other = .insert
      · by_cases changed : id = other <;> simp [inserts, changed]
      · simp [inserts, adds]
  | removed same =>
      rename_i other
      have fits := deletedReaction_fits before other query
      rw [← members_congr_store (same.sameIndexes query.key)] at fits
      have drops := QueryKey.deletedReaction_ne_insert other query.key
      rw [fits.mem_iff valid, Mutation.patch?]
      by_cases removes : query.key.deletedReaction other = .remove
      · by_cases changed : id = other <;> simp [removes, changed]
      · simp [removes, drops]
  | relinked changed =>
      rename_i typeId linkId
      change query.key.linkReaction typeId linkId ≠ .invalidate at valid
      have ignored : query.key.linkReaction typeId linkId = .ignore := by
        rw [QueryKey.linkReaction] at valid ⊢
        split at valid
        · exact absurd rfl valid
        · rename_i unmatched
          exact if_neg unmatched
      have unchanged := members_congr_store (QueryKey.sameIndexes_of_linksChanged changed ignored)
      rw [← unchanged]
      rfl

end Query

/-! ## Chains of mutations -/

namespace Mutation

variable {mutation : Mutation} {first second before middle after : MemoryStore}

theorem Leads.congr_left (leads : mutation.Leads first after) (same : first.SameContent second) :
    mutation.Leads second after := by
  cases leads with
  | added absent content =>
      rename_i id
      have absentSecond : second.Absent id := by
        constructor
        · rw [← same.entities]
          exact absent.notStored
        · rw [← same.edges]
          exact absent.notSource
      refine .added absentSecond (content.trans ⟨?_, same.edges⟩)
      simp only [MemoryStore.addEntity, same.entities]
  | removed content =>
      refine .removed (content.trans ⟨?_, ?_⟩)
      · simp only [MemoryStore.removeEntity, same.entities]
      · simp only [MemoryStore.removeEntity, same.edges]
  | relinked changed =>
      refine .relinked ⟨changed.entities.trans same.entities, ?_⟩
      intro otherType otherLink different
      rw [changed.edges otherType otherLink different, MemoryStore.edgesOf, MemoryStore.edgesOf,
        same.edges]

/-- Mutations that lead from one store to another, one after the other. -/
inductive Chain : List Mutation → MemoryStore → MemoryStore → Prop
  | settled {before after : MemoryStore} : after.SameContent before → Chain [] before after
  | next {mutation : Mutation} {rest : List Mutation} {before middle after : MemoryStore} :
      mutation.Leads before middle → Chain rest middle after →
        Chain (mutation :: rest) before after

theorem Chain.append {pending : List Mutation} (chain : Chain pending before middle)
    (leads : mutation.Leads middle after) : Chain (pending ++ [mutation]) before after := by
  induction chain with
  | settled same => exact .next (leads.congr_left same) (.settled (.refl after))
  | next first _ inductionHypothesis => exact .next first (inductionHypothesis leads)

theorem Chain.congr_right {pending : List Mutation} (chain : Chain pending before first)
    (same : second.SameContent first) : Chain pending before second := by
  induction chain with
  | settled content => exact .settled (same.trans content)
  | next leads _ inductionHypothesis => exact .next leads (inductionHypothesis same)

end Mutation

end EntityQuery
