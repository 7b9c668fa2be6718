import Mathlib.Order.BooleanAlgebra.Set
import Mathlib.Tactic.SplitIfs
import EntityQuery.Proofs.Query.Members

/-!
# What reactions do to the set of a query

A reaction promises how the set of a query changes with the store: it stays, gains the entity or
loses it.  Invalidation promises nothing.  This module proves the promise of every selection, by
induction on the selection, for a new entity, for a removed one and for changed links.

A new entity has to be absent before: neither stored nor the source of an edge.  Otherwise an
intersection could gain it although one operand ignores it.
-/

namespace EntityQuery

/-! ## Changes of the store -/

namespace MemoryStore

/-- An identity is neither an entity nor the source of an edge. -/
structure Absent (store : MemoryStore) (id : EntityId) : Prop where
  notStored : id ∉ store.entities
  notSource : ∀ edge ∈ store.edges, edge.source ≠ id

/-- Every edge starts at an entity of the store. -/
def SourcesStored (store : MemoryStore) : Prop :=
  ∀ edge ∈ store.edges, edge.source ∈ store.entities

/-- Nothing changes but the edges of one link of one type. -/
structure LinksChanged (typeId : TypeId) (linkId : LinkId) (before after : MemoryStore) :
    Prop where
  entities : after.entities = before.entities
  edges : ∀ otherType otherLink, ¬ (otherType = typeId ∧ otherLink = linkId) →
    after.edgesOf otherType otherLink = before.edgesOf otherType otherLink

variable {store : MemoryStore} {id : EntityId}

theorem SourcesStored.absent (stored : store.SourcesStored) (missing : id ∉ store.entities) :
    store.Absent id where
  notStored := missing
  notSource edge member same := missing (same ▸ stored edge member)

theorem absent_removeEntity (store : MemoryStore) (id : EntityId) :
    (store.removeEntity id).Absent id where
  notStored := by simp [removeEntity]
  notSource edge member := by
    simp [removeEntity] at member
    exact member.2

/-! ### Indexes that a change does not touch -/

theorem entitiesOf_addEntity {typeId : TypeId} (different : id.typeId ≠ typeId) :
    (store.addEntity id).entitiesOf typeId = store.entitiesOf typeId := by
  apply IdSet.ids_eq_of_mem_iff (entitiesOf_ascending _ _) (entitiesOf_ascending _ _)
  intro other
  simp only [mem_entitiesOf, addEntity, IdSet.mem_insert]
  constructor
  · rintro ⟨rfl | member, ofType⟩
    · exact absurd ofType different
    · exact ⟨member, ofType⟩
  · rintro ⟨member, ofType⟩
    exact ⟨.inr member, ofType⟩

theorem entitiesOf_removeEntity {typeId : TypeId} (different : id.typeId ≠ typeId) :
    (store.removeEntity id).entitiesOf typeId = store.entitiesOf typeId := by
  apply IdSet.ids_eq_of_mem_iff (entitiesOf_ascending _ _) (entitiesOf_ascending _ _)
  intro other
  simp only [mem_entitiesOf, removeEntity, IdSet.mem_erase]
  constructor
  · rintro ⟨⟨member, _⟩, ofType⟩
    exact ⟨member, ofType⟩
  · rintro ⟨member, ofType⟩
    refine ⟨⟨member, ?_⟩, ofType⟩
    rintro rfl
    exact different ofType

theorem edgesOf_removeEntity {typeId : TypeId} {linkId : LinkId}
    (different : id.typeId ≠ typeId) :
    (store.removeEntity id).edgesOf typeId linkId = store.edgesOf typeId linkId := by
  rw [edgesOf, edgesOf, removeEntity, List.filter_filter]
  apply List.filter_congr
  intro edge _
  by_cases ofType : edge.source.typeId = typeId
  · have otherSource : edge.source ≠ id := fun same => different (same ▸ ofType)
    simp [otherSource]
  · simp [ofType]

theorem filter_insertInto {selects : StoredEdge → Bool} {edge : StoredEdge}
    (passedOver : selects edge = false) (edges : List StoredEdge) :
    (edge.insertInto edges).filter selects = edges.filter selects := by
  induction edges with
  | nil => simp [StoredEdge.insertInto, passedOver]
  | cons head rest inductionHypothesis =>
      rw [StoredEdge.insertInto]
      split
      · rw [List.filter_cons_of_neg (by simp [passedOver])]
      · rw [List.filter_cons, List.filter_cons, inductionHypothesis]

/-- Adding an edge touches only the index of its link. -/
theorem linksChanged_addEdge (store : MemoryStore) (edge : StoredEdge) :
    LinksChanged edge.source.typeId edge.link store (store.addEdge edge) where
  entities := rfl
  edges otherType otherLink different := by
    apply filter_insertInto
    rw [Bool.and_eq_false_iff, decide_eq_false_iff_not, decide_eq_false_iff_not, ← not_and_or]
    rintro ⟨sameType, sameLink⟩
    exact different ⟨sameType.symm, sameLink.symm⟩

end MemoryStore

/-! ## Indexes that a key does not name -/

namespace QueryKey

variable {key : QueryKey} {store : MemoryStore} {id : EntityId}

theorem sameIndexes_addEntity (unaffected : id.typeId ∉ key.affectingTypes) :
    key.SameIndexes store (store.addEntity id) where
  entities _ named :=
    (MemoryStore.entitiesOf_addEntity fun same => unaffected (same ▸ named)).symm
  edges _ _ _ _ := rfl

theorem sameIndexes_removeEntity (unaffected : id.typeId ∉ key.affectingTypes) :
    key.SameIndexes store (store.removeEntity id) where
  entities _ named :=
    (MemoryStore.entitiesOf_removeEntity fun same => unaffected (same ▸ named)).symm
  edges _ named _ _ :=
    (MemoryStore.edgesOf_removeEntity fun same => unaffected (same ▸ named)).symm

theorem sameIndexes_of_linksChanged {typeId : TypeId} {linkId : LinkId}
    {before after : MemoryStore} (changed : MemoryStore.LinksChanged typeId linkId before after)
    (ignored : key.linkReaction typeId linkId = .ignore) : key.SameIndexes before after where
  entities _ _ := by
    rw [MemoryStore.entitiesOf, MemoryStore.entitiesOf, changed.entities]
  edges otherType namedType otherLink namedLink := by
    refine (changed.edges otherType otherLink ?_).symm
    rintro ⟨rfl, rfl⟩
    exact linkReaction_eq_ignore_iff.1 ignored ⟨namedLink, namedType⟩

theorem ofAny_eq_or (found : Reaction) (operands : List Reaction) :
    Reaction.ofAny found operands = .invalidate ∨ Reaction.ofAny found operands = found ∨
      Reaction.ofAny found operands = .ignore := by
  rw [Reaction.ofAny]
  split_ifs <;> simp

/-- A new entity is never taken out of a result. -/
theorem addedReaction_ne_remove (id : EntityId) (key : QueryKey) :
    key.addedReaction id ≠ .remove := by
  rw [addedReaction_eq]
  split
  · cases key.kind with
    | union =>
        rcases ofAny_eq_or .insert (key.operands.map (addedReaction id)) with
          reacts | reacts | reacts <;> simp [addedStep, reacts]
    | intersect =>
        rw [addedStep, Reaction.ofAllInserting]
        split_ifs <;> simp
    | empty | allEntities | entitiesWithLink | filterLinks => simp [addedStep]
  · simp

/-- A removed entity is never put into a result. -/
theorem deletedReaction_ne_insert (id : EntityId) (key : QueryKey) :
    key.deletedReaction id ≠ .insert := by
  rw [deletedReaction_eq]
  split
  · cases key.kind with
    | union | intersect =>
        rcases ofAny_eq_or .remove (key.operands.map (deletedReaction id)) with
          reacts | reacts | reacts <;> simp [deletedStep, reacts]
    | empty | allEntities | entitiesWithLink | filterLinks => simp [deletedStep]
  · simp

end QueryKey

/-! ## The promises of reactions -/

/-- What a reaction to a change of an entity promises about a set before and after it. -/
def Reaction.Fits (reaction : Reaction) (id : EntityId) (before after : Set EntityId) : Prop :=
  match reaction with
  | .ignore => after = before
  | .insert => after = before ∪ {id}
  | .remove => after = before \ {id}
  | .invalidate => True

namespace Reaction

variable {id : EntityId} {left right leftAfter rightAfter : Set EntityId}

/-- A promised set has what was inserted, and of the set before what was not removed. -/
theorem Fits.mem_iff {reaction : Reaction} {before after : Set EntityId}
    (fits : reaction.Fits id before after) (valid : reaction ≠ .invalidate) {other : EntityId} :
    other ∈ after ↔
      (reaction = .insert ∧ other = id) ∨
        (other ∈ before ∧ ¬ (reaction = .remove ∧ other = id)) := by
  cases reaction with
  | ignore =>
      have unchanged : after = before := fits
      simp [unchanged]
  | insert =>
      have gained : after = before ∪ {id} := fits
      simp [gained]
  | remove =>
      have lost : after = before \ {id} := fits
      simp [lost]
  | invalidate => exact absurd rfl valid

/-- A union gains what one of its operands gains. -/
theorem fits_union_added {first second : Reaction} (leftFits : first.Fits id left leftAfter)
    (rightFits : second.Fits id right rightAfter) (leftAdds : first ≠ .remove)
    (rightAdds : second ≠ .remove) :
    (ofAny .insert [first, second]).Fits id (left ∪ right) (leftAfter ∪ rightAfter) := by
  cases first with
  | invalidate => trivial
  | remove => exact absurd rfl leftAdds
  | ignore =>
      cases second with
      | invalidate => trivial
      | remove => exact absurd rfl rightAdds
      | ignore => exact congrArg₂ (· ∪ ·) leftFits rightFits
      | insert =>
          show leftAfter ∪ rightAfter = left ∪ right ∪ {id}
          rw [leftFits, rightFits, Set.union_assoc]
  | insert =>
      cases second with
      | invalidate => trivial
      | remove => exact absurd rfl rightAdds
      | ignore =>
          show leftAfter ∪ rightAfter = left ∪ right ∪ {id}
          rw [leftFits, rightFits, Set.union_right_comm]
      | insert =>
          show leftAfter ∪ rightAfter = left ∪ right ∪ {id}
          rw [leftFits, rightFits, ← Set.union_union_distrib_right]

/-- An intersection gains what both of its operands gain; neither may have had it before. -/
theorem fits_inter_added {first second : Reaction} (leftFits : first.Fits id left leftAfter)
    (rightFits : second.Fits id right rightAfter) (leftAdds : first ≠ .remove)
    (rightAdds : second ≠ .remove) (leftLacks : id ∉ left) (rightLacks : id ∉ right) :
    (ofAllInserting [first, second]).Fits id (left ∩ right) (leftAfter ∩ rightAfter) := by
  cases first with
  | invalidate => trivial
  | remove => exact absurd rfl leftAdds
  | ignore =>
      cases second with
      | invalidate => trivial
      | remove => exact absurd rfl rightAdds
      | ignore => exact congrArg₂ (· ∩ ·) leftFits rightFits
      | insert =>
          show leftAfter ∩ rightAfter = left ∩ right
          rw [leftFits, rightFits, Set.inter_union_distrib_left,
            Set.inter_singleton_eq_empty.2 leftLacks, Set.union_empty]
  | insert =>
      cases second with
      | invalidate => trivial
      | remove => exact absurd rfl rightAdds
      | ignore =>
          show leftAfter ∩ rightAfter = left ∩ right
          rw [leftFits, rightFits, Set.union_inter_distrib_right,
            Set.singleton_inter_eq_empty.2 rightLacks, Set.union_empty]
      | insert =>
          show leftAfter ∩ rightAfter = left ∩ right ∪ {id}
          rw [leftFits, rightFits, Set.inter_union_distrib_right]

/-- An operand that neither gains nor drops out also fits a removal, if it lacks the identity. -/
theorem fits_remove {reaction : Reaction} {before after : Set EntityId}
    (fits : reaction.Fits id before after) (drops : reaction ≠ .insert)
    (stays : reaction ≠ .invalidate) (lacks : id ∉ after) : after = before \ {id} := by
  cases reaction with
  | insert => exact absurd rfl drops
  | invalidate => exact absurd rfl stays
  | remove => exact fits
  | ignore =>
      have same : after = before := fits
      rw [← same, Set.sdiff_singleton_eq_self lacks]

/--
Removals pass through every operation on sets that commutes with taking one identity out.  The
operands lack the identity afterwards.
-/
theorem fits_removed {first second : Reaction} (leftFits : first.Fits id left leftAfter)
    (rightFits : second.Fits id right rightAfter) (leftDrops : first ≠ .insert)
    (rightDrops : second ≠ .insert) (leftLacks : id ∉ leftAfter) (rightLacks : id ∉ rightAfter)
    {combine : Set EntityId → Set EntityId → Set EntityId}
    (commutes : combine (left \ {id}) (right \ {id}) = combine left right \ {id}) :
    (ofAny .remove [first, second]).Fits id (combine left right)
      (combine leftAfter rightAfter) := by
  by_cases leftStays : first = .invalidate
  · rw [leftStays]
    trivial
  by_cases rightStays : second = .invalidate
  · rw [rightStays]
    cases first <;> trivial
  have removed : combine leftAfter rightAfter = combine left right \ {id} := by
    rw [fits_remove leftFits leftDrops leftStays leftLacks,
      fits_remove rightFits rightDrops rightStays rightLacks, commutes]
  cases first with
  | insert => exact absurd rfl leftDrops
  | invalidate => exact absurd rfl leftStays
  | remove =>
      cases second with
      | invalidate => exact absurd rfl rightStays
      | ignore | insert | remove => exact removed
  | ignore =>
      cases second with
      | insert => exact absurd rfl rightDrops
      | invalidate => exact absurd rfl rightStays
      | remove => exact removed
      | ignore => exact congrArg₂ combine leftFits rightFits

end Reaction

namespace Selection

variable {store : MemoryStore} {id : EntityId}

/-- An absent identity is in no result. -/
theorem notMem_of_absent (absent : store.Absent id) (selection : Selection) :
    id ∉ selection.members store := by
  induction selection with
  | ofType typeId =>
      intro member
      exact absent.notStored (MemoryStore.mem_entitiesOf.1 member).1
  | withLink typeId linkId =>
      rintro ⟨edge, member, source⟩
      exact absent.notSource edge (MemoryStore.mem_edgesOf.1 member).1 source
  | linkedTo typeId linkId target _ =>
      rintro ⟨edge, member, source, _⟩
      exact absent.notSource edge (MemoryStore.mem_edgesOf.1 member).1 source
  | union left right leftHypothesis rightHypothesis =>
      rintro (member | member)
      · exact leftHypothesis member
      · exact rightHypothesis member
  | inter left right leftHypothesis _ =>
      rintro ⟨member, _⟩
      exact leftHypothesis member

/-- The reaction of a selection tells what a new entity does to its set. -/
theorem addedReaction_fits (absent : store.Absent id) (selection : Selection) :
    (selection.key.addedReaction id).Fits id (selection.members store)
      (selection.members (store.addEntity id)) := by
  induction selection with
  | ofType typeId =>
      rw [addedReaction_ofType]
      split
      · rename_i ofType
        show {other | other ∈ (store.addEntity id).entitiesOf typeId} =
          {other | other ∈ store.entitiesOf typeId} ∪ {id}
        ext other
        simp only [Set.mem_ofPred_eq, Set.mem_union, Set.mem_singleton_iff,
          MemoryStore.mem_entitiesOf, MemoryStore.addEntity, IdSet.mem_insert]
        constructor
        · rintro ⟨same | member, otherType⟩
          · exact .inr same
          · exact .inl ⟨member, otherType⟩
        · rintro (⟨member, otherType⟩ | rfl)
          · exact ⟨.inr member, otherType⟩
          · exact ⟨.inl rfl, ofType⟩
      · rename_i otherType
        show {other | other ∈ (store.addEntity id).entitiesOf typeId} =
          {other | other ∈ store.entitiesOf typeId}
        rw [MemoryStore.entitiesOf_addEntity otherType]
  | withLink typeId linkId =>
      rw [addedReaction_withLink]
      rfl
  | linkedTo typeId linkId target _ =>
      rw [addedReaction_linkedTo]
      split
      · trivial
      · rename_i unaffected
        refine (members_congr_store (QueryKey.sameIndexes_addEntity ?_)).symm
        simpa [key, withLinkKey, KeyPart.map, QueryKey.partTypes] using unaffected
  | union left right leftHypothesis rightHypothesis =>
      rw [addedReaction_union]
      exact Reaction.fits_union_added leftHypothesis rightHypothesis
        (QueryKey.addedReaction_ne_remove id _) (QueryKey.addedReaction_ne_remove id _)
  | inter left right leftHypothesis rightHypothesis =>
      rw [addedReaction_inter]
      exact Reaction.fits_inter_added leftHypothesis rightHypothesis
        (QueryKey.addedReaction_ne_remove id _) (QueryKey.addedReaction_ne_remove id _)
        (notMem_of_absent absent left) (notMem_of_absent absent right)

/-- The reaction of a selection tells what a removed entity does to its set. -/
theorem deletedReaction_fits (store : MemoryStore) (id : EntityId) (selection : Selection) :
    (selection.key.deletedReaction id).Fits id (selection.members store)
      (selection.members (store.removeEntity id)) := by
  have absent := store.absent_removeEntity id
  induction selection with
  | ofType typeId =>
      rw [deletedReaction_ofType]
      split
      · show {other | other ∈ (store.removeEntity id).entitiesOf typeId} =
          {other | other ∈ store.entitiesOf typeId} \ {id}
        ext other
        simp only [Set.mem_ofPred_eq, Set.mem_sdiff, Set.mem_singleton_iff,
          MemoryStore.mem_entitiesOf, MemoryStore.removeEntity, IdSet.mem_erase]
        exact and_right_comm
      · rename_i otherType
        show {other | other ∈ (store.removeEntity id).entitiesOf typeId} =
          {other | other ∈ store.entitiesOf typeId}
        rw [MemoryStore.entitiesOf_removeEntity otherType]
  | withLink typeId linkId =>
      rw [deletedReaction_withLink]
      split
      · show {other | ∃ edge ∈ (store.removeEntity id).edgesOf typeId linkId,
          edge.source = other} =
            {other | ∃ edge ∈ store.edgesOf typeId linkId, edge.source = other} \ {id}
        ext other
        simp only [Set.mem_ofPred_eq, Set.mem_sdiff, Set.mem_singleton_iff,
          MemoryStore.mem_edgesOf, MemoryStore.removeEntity, List.mem_filter, decide_eq_true_eq]
        constructor
        · rintro ⟨edge, ⟨⟨member, different⟩, named⟩, rfl⟩
          exact ⟨⟨edge, ⟨member, named⟩, rfl⟩, different⟩
        · rintro ⟨⟨edge, ⟨member, named⟩, rfl⟩, different⟩
          exact ⟨edge, ⟨⟨member, different⟩, named⟩, rfl⟩
      · rename_i otherType
        show {other | ∃ edge ∈ (store.removeEntity id).edgesOf typeId linkId,
          edge.source = other} =
            {other | ∃ edge ∈ store.edgesOf typeId linkId, edge.source = other}
        rw [MemoryStore.edgesOf_removeEntity otherType]
  | linkedTo typeId linkId target _ =>
      rw [deletedReaction_linkedTo]
      split
      · trivial
      · rename_i unaffected
        refine (members_congr_store (QueryKey.sameIndexes_removeEntity ?_)).symm
        simpa [key, withLinkKey, KeyPart.map, QueryKey.partTypes] using unaffected
  | union left right leftHypothesis rightHypothesis =>
      rw [deletedReaction_union]
      exact Reaction.fits_removed leftHypothesis rightHypothesis
        (QueryKey.deletedReaction_ne_insert id _) (QueryKey.deletedReaction_ne_insert id _)
        (notMem_of_absent absent left) (notMem_of_absent absent right) Set.union_sdiff_distrib.symm
  | inter left right leftHypothesis rightHypothesis =>
      rw [deletedReaction_inter]
      exact Reaction.fits_removed leftHypothesis rightHypothesis
        (QueryKey.deletedReaction_ne_insert id _) (QueryKey.deletedReaction_ne_insert id _)
        (notMem_of_absent absent left) (notMem_of_absent absent right)
        (Set.sdiff_inter_distrib_right _ _ _).symm

end Selection

end EntityQuery
