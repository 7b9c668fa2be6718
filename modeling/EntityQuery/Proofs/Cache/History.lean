import EntityQuery.Proofs.Query.Mutations

/-!
# Histories of commits

A history lists the mutations of every version.  Whether an identity belongs to a query at a version
is decided by the last version that patches the identity, or by an earlier version where none does,
as long as no mutation in between invalidates the query.

Which mutations are considered is left open: all that were committed up to a version, or those that
were told to a cache so far.  Where both agree, they decide alike.
-/

namespace EntityQuery

/-- Commits with increasing versions.  A version without a commit has no changes. -/
structure History where
  start : MemoryStore
  /-- The store after the commit of a version. -/
  storeAt : Nat → MemoryStore
  /-- What is notified of the commit of a version. -/
  changes : Nat → List Mutation
  leads_zero : Mutation.Chain (changes 0) start (storeAt 0)
  leads_succ : ∀ version,
    Mutation.Chain (changes (version + 1)) (storeAt version) (storeAt (version + 1))
  /-- No two mutations of entities in one version concern the same entity. -/
  distinct : ∀ version, ((changes version).filterMap Mutation.entity?).Nodup

/-! ## Deciding patches -/

/-- A mutation among those considered patches an identity after a version. -/
def PatchedAt (told : Nat → Mutation → Prop) (key : QueryKey) (since : Nat) (id : EntityId)
    (version : Nat) (appears : Bool) : Prop :=
  since < version ∧ ∃ mutation, told version mutation ∧ mutation.patch? key = some (id, appears)

/-- The last patch of an identity decides whether it is present, or else its former state does. -/
inductive Decides (told : Nat → Mutation → Prop) (key : QueryKey) (since : Nat) (former : Prop)
    (id : EntityId) (present : Prop) : Prop
  | patched {version : Nat} {appears : Bool} :
      PatchedAt told key since id version appears →
        (∀ other otherAppears, PatchedAt told key since id other otherAppears → other ≤ version) →
          (present ↔ appears = true) → Decides told key since former id present
  | unpatched :
      (∀ version appears, ¬ PatchedAt told key since id version appears) →
        (present ↔ former) → Decides told key since former id present

namespace Decides

variable {told first second : Nat → Mutation → Prop} {key : QueryKey} {since : Nat}
  {former present left right : Prop} {id : EntityId}

/-- Only the patches of the identity matter. -/
theorem congr (decides : Decides first key since former id present)
    (same : ∀ version appears,
      PatchedAt first key since id version appears ↔
        PatchedAt second key since id version appears) :
    Decides second key since former id present := by
  cases decides with
  | patched patch last truth =>
      refine .patched ((same _ _).1 patch) ?_ truth
      intro other otherAppears otherPatch
      exact last other otherAppears ((same _ _).2 otherPatch)
  | unpatched none truth =>
      refine .unpatched ?_ truth
      intro version appears patch
      exact none version appears ((same _ _).2 patch)

/-- Where no version patches an identity in two ways, its presence is decided. -/
theorem unique
    (consistent : ∀ version appears otherAppears,
      PatchedAt told key since id version appears →
        PatchedAt told key since id version otherAppears → appears = otherAppears)
    (leftDecides : Decides told key since former id left)
    (rightDecides : Decides told key since former id right) : left ↔ right := by
  cases leftDecides with
  | @patched version appears patch last truth =>
      cases rightDecides with
      | @patched otherVersion otherAppears otherPatch otherLast otherTruth =>
          have sameVersion : version = otherVersion :=
            Nat.le_antisymm (otherLast _ _ patch) (last _ _ otherPatch)
          subst sameVersion
          rw [truth, otherTruth, consistent version appears otherAppears patch otherPatch]
      | unpatched none _ => exact absurd patch (none version appears)
  | unpatched none truth =>
      cases rightDecides with
      | @patched version appears patch _ _ => exact absurd patch (none version appears)
      | unpatched _ otherTruth => rw [truth, otherTruth]

end Decides

/-! ## One commit -/

/-- Where the mutations of entities concern different ones, the entity determines the mutation. -/
theorem Mutation.eq_of_entity?_eq {changes : List Mutation}
    (distinct : (changes.filterMap Mutation.entity?).Nodup) {first second : Mutation}
    (firstMember : first ∈ changes) (secondMember : second ∈ changes) {id : EntityId}
    (firstEntity : first.entity? = some id) (secondEntity : second.entity? = some id) :
    first = second := by
  induction changes with
  | nil => cases firstMember
  | cons head rest inductionHypothesis =>
      have listed {mutation : Mutation} (member : mutation ∈ rest)
          (entity : mutation.entity? = some id) : id ∈ rest.filterMap Mutation.entity? :=
        List.mem_filterMap.2 ⟨mutation, member, entity⟩
      rcases List.mem_cons.1 firstMember with rfl | firstLater <;>
        rcases List.mem_cons.1 secondMember with rfl | secondLater
      · rfl
      · rw [List.filterMap_cons_some firstEntity] at distinct
        exact absurd (listed secondLater secondEntity) (List.nodup_cons.1 distinct).1
      · rw [List.filterMap_cons_some secondEntity] at distinct
        exact absurd (listed firstLater firstEntity) (List.nodup_cons.1 distinct).1
      · have distinctLater := distinct.sublist ((List.sublist_cons_self head rest).filterMap _)
        exact inductionHypothesis distinctLater firstLater secondLater

/-- The patches of one commit decide what it does to a query that none of its changes invalidates. -/
theorem Mutation.Chain.mem_members {changes : List Mutation} {before after : MemoryStore}
    {query : Query} (chain : Mutation.Chain changes before after)
    (valid : ∀ mutation ∈ changes, mutation.reaction query.key ≠ .invalidate) (id : EntityId) :
    (∃ mutation ∈ changes, ∃ appears, mutation.patch? query.key = some (id, appears) ∧
        (id ∈ query.members after ↔ appears = true)) ∨
      (∀ mutation ∈ changes, ∀ appears, mutation.patch? query.key ≠ some (id, appears)) ∧
        (id ∈ query.members after ↔ id ∈ query.members before) := by
  induction chain with
  | settled same =>
      refine .inr ⟨nofun, ?_⟩
      rw [Query.members_congr_store (same.sameIndexes query.key)]
  | @next mutation rest before middle after leads _ inductionHypothesis =>
      have step := Query.mem_members_of_leads leads (valid mutation List.mem_cons_self) id
      have validRest : ∀ other ∈ rest, other.reaction query.key ≠ .invalidate :=
        fun other member => valid other (List.mem_cons_of_mem mutation member)
      rcases inductionHypothesis validRest with ⟨later, member, patched⟩ | ⟨none, unchanged⟩
      · exact .inl ⟨later, List.mem_cons_of_mem mutation member, patched⟩
      · cases patches : mutation.patch? query.key with
        | none =>
            rw [patches] at step
            refine .inr ⟨?_, unchanged.trans step⟩
            intro other member appears
            rcases List.mem_cons.1 member with rfl | member
            · rw [patches]
              exact nofun
            · exact none other member appears
        | some patch =>
            obtain ⟨changed, appears⟩ := patch
            rw [patches] at step
            dsimp only at step
            by_cases same : id = changed
            · subst same
              rw [if_pos rfl] at step
              exact .inl ⟨mutation, List.mem_cons_self, appears, patches, unchanged.trans step⟩
            · rw [if_neg same] at step
              refine .inr ⟨?_, unchanged.trans step⟩
              intro other member otherAppears
              rcases List.mem_cons.1 member with rfl | member
              · rw [patches]
                rintro ⟨⟩
                exact same rfl
              · exact none other member otherAppears

/-! ## The commits up to a version -/

namespace History

variable {history : History} {query : Query} {since version : Nat}

/-- The mutations that were committed up to a version. -/
def Committed (history : History) (latest version : Nat) (mutation : Mutation) : Prop :=
  version ≤ latest ∧ mutation ∈ history.changes version

/-- One version never patches an identity in two ways. -/
theorem patch_unique {key : QueryKey} {first second : Mutation} {id : EntityId}
    {firstAppears secondAppears : Bool} (firstMember : first ∈ history.changes version)
    (secondMember : second ∈ history.changes version)
    (firstPatch : first.patch? key = some (id, firstAppears))
    (secondPatch : second.patch? key = some (id, secondAppears)) :
    firstAppears = secondAppears := by
  have same := Mutation.eq_of_entity?_eq (history.distinct version) firstMember secondMember
    (Mutation.entity?_of_patch? firstPatch) (Mutation.entity?_of_patch? secondPatch)
  rw [same, secondPatch] at firstPatch
  cases firstPatch
  rfl

/-- From a version on, the patches of the commits decide membership at every later version. -/
theorem decides_members (order : since ≤ version)
    (valid : ∀ between mutation, since < between → between ≤ version →
      mutation ∈ history.changes between → mutation.reaction query.key ≠ .invalidate)
    (id : EntityId) :
    Decides (history.Committed version) query.key since
      (id ∈ query.members (history.storeAt since)) id
      (id ∈ query.members (history.storeAt version)) := by
  obtain ⟨steps, rfl⟩ := Nat.exists_eq_add_of_le order
  induction steps with
  | zero =>
      refine .unpatched ?_ Iff.rfl
      rintro version appears ⟨later, mutation, ⟨notLater, _⟩, _⟩
      omega
  | succ steps inductionHypothesis =>
      have earlier := inductionHypothesis (Nat.le_add_right since steps)
        fun between mutation above below member =>
          valid between mutation above (Nat.le_succ_of_le below) member
      have commit := (history.leads_succ (since + steps)).mem_members
        (fun mutation member => valid _ mutation (by omega) (Nat.le_refl _) member) id
      rcases commit with ⟨mutation, member, appears, patches, truth⟩ | ⟨none, unchanged⟩
      · -- The last commit patches the identity, so it decides.
        refine .patched ⟨by omega, mutation, ⟨Nat.le_refl _, member⟩, patches⟩ ?_ truth
        rintro other otherAppears ⟨_, _, ⟨below, _⟩, _⟩
        exact below
      · -- Otherwise the patches are those of the commits before.
        have samePatches (other : Nat) (appears : Bool) :
            PatchedAt (history.Committed (since + steps)) query.key since id other appears ↔
              PatchedAt (history.Committed (since + steps + 1)) query.key since id other
                appears := by
          constructor
          · rintro ⟨above, mutation, ⟨below, member⟩, patches⟩
            exact ⟨above, mutation, ⟨Nat.le_succ_of_le below, member⟩, patches⟩
          · rintro ⟨above, mutation, ⟨below, member⟩, patches⟩
            refine ⟨above, mutation, ⟨?_, member⟩, patches⟩
            rcases Nat.lt_or_eq_of_le below with less | rfl
            · exact Nat.lt_succ_iff.1 less
            · exact absurd patches (none mutation member appears)
        cases earlier.congr samePatches with
        | patched patch last truth => exact .patched patch last (unchanged.trans truth)
        | unpatched without truth => exact .unpatched without (unchanged.trans truth)

end History

end EntityQuery
