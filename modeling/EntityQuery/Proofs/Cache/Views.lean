import Mathlib.Data.Set.Insert
import EntityQuery.Cache.ResultCall
import EntityQuery.Query.Basic

/-!
# What the view of a result shows

A result is called by its holders, patched at versions that go up and down, and read, in any order.
The view that it shows is always the list of its members: a view from before a change is never shown
again, because every change of the members gives it up and nothing else has to.

The members are the first ones with the changes of the run made in their order, where a patch counts
if it was merged.  Merged patches come after the computation and in ascending order of their versions,
so the version of a result is that of its last merged patch.
-/

namespace EntityQuery

namespace CachedResult

/-- If a result has a view, the view shows its members. -/
def Coherent (result : CachedResult) : Prop :=
  ∀ view ∈ result.view, view = result.ids

/-! ## Changes of the members -/

section Step

variable {result : CachedResult}

theorem coherent_ofIds (key : QueryKey) (version : Nat) (ids : List EntityId) (serial : Nat) :
    (ofIds key version ids serial).Coherent :=
  nofun

/-- Where nothing changes, the members stay as they are. -/
theorem ids_setMember_of_contains {id : EntityId} {appears : Bool}
    (same : result.contains id = appears) : (result.setMember id appears).2.ids = result.ids := by
  ext other
  rw [mem_setMember]
  by_cases changed : other = id
  · subst other
    rw [if_pos rfl, ← same]
    exact IdSet.contains_iff_mem
  · rw [if_neg changed]

/-- A view that is kept is still right: it is given up with every change. -/
theorem Coherent.setMember (coherent : result.Coherent) (id : EntityId) (appears : Bool) :
    (result.setMember id appears).2.Coherent := by
  intro view shown
  change view ∈ (if result.contains id != appears then none else result.view) at shown
  by_cases same : result.contains id = appears
  · rw [ids_setMember_of_contains same]
    rw [same, bne_self_eq_false, if_neg Bool.false_ne_true] at shown
    exact coherent view shown
  · rw [bne_iff_ne.2 same, if_pos rfl] at shown
    cases shown

theorem Coherent.toSet_eq (coherent : result.Coherent) : result.toSet.1 = result.ids := by
  rw [toSet]
  cases shown : result.view with
  | none => rfl
  | some view => exact coherent view shown

/-- A read leaves nothing but a view behind. -/
theorem toSet_after (result : CachedResult) : ∃ view, result.toSet.2 = { result with view } := by
  rw [toSet]
  cases result.view with
  | none => exact ⟨some result.ids, rfl⟩
  | some view => exact ⟨result.view, rfl⟩

theorem Coherent.toSet (coherent : result.Coherent) : result.toSet.2.Coherent := by
  rw [CachedResult.toSet]
  cases shown : result.view with
  | none =>
      intro view same
      exact (Option.some.inj same).symm
  | some view => exact coherent

/-- What a patch does: it merges its change, or it does nothing at all. -/
theorem patch_cases (result : CachedResult) (id : EntityId) (appears : Bool) (version : Nat) :
    ((result.patch id appears version).1 ≠ .applied ∧
        (result.patch id appears version).2 = result) ∨
      ((result.patch id appears version).1 = .applied ∧ result.computedAt < version ∧
        result.version ≤ version ∧
          (result.patch id appears version).2 =
            { (result.setMember id appears).2 with version }) := by
  rw [patch]
  by_cases contained : version ≤ result.computedAt
  · rw [if_pos contained]
    exact .inl ⟨nofun, rfl⟩
  · by_cases late : version < result.version
    · rw [if_neg contained, if_pos late]
      exact .inl ⟨nofun, rfl⟩
    · rw [if_neg contained, if_neg late]
      exact .inr ⟨rfl, Nat.lt_of_not_le contained, Nat.le_of_not_lt late, rfl⟩

theorem outcome_patch (result : CachedResult) (id : EntityId) (appears : Bool) (version : Nat) :
    (result.patch id appears version).1 =
      if version ≤ result.computedAt then .skipped
      else if version < result.version then .outOfOrder else .applied := by
  rw [patch]
  split
  · rfl
  · split <;> rfl

/-- A merged patch shows, from its version on, the members with its change. -/
theorem Coherent.toSet_patch (coherent : result.Coherent) {id : EntityId} {appears : Bool}
    {version : Nat} (applied : (result.patch id appears version).1 = .applied) :
    (result.patch id appears version).2.version = version ∧
      ∀ other, other ∈ (result.patch id appears version).2.toSet.1 ↔
        if other = id then appears = true else other ∈ result.ids := by
  rcases result.patch_cases id appears version with ⟨refused, _⟩ | ⟨_, _, _, after⟩
  · exact absurd applied refused
  · have merged : CachedResult.Coherent { (result.setMember id appears).2 with version } :=
      coherent.setMember id appears
    rw [after]
    refine ⟨rfl, fun other => ?_⟩
    rw [merged.toSet_eq]
    exact mem_setMember

end Step

/-! ## Uses -/

/-- What can be done with a result. -/
inductive Use where
  | call (call : ResultCall)
  | patch (id : EntityId) (appears : Bool) (version : Nat)
  /-- Ask for the members as a set. -/
  | read

/-- The result after a use. -/
def use (result : CachedResult) : Use → CachedResult
  | .call call => (result.call call).2
  | .patch id appears version => (result.patch id appears version).2
  | .read => result.toSet.2

def useAll (result : CachedResult) (uses : List Use) : CachedResult :=
  uses.foldl use result

/-- The version of a patch that is merged. -/
def merged? (result : CachedResult) : Use → Option Nat
  | .patch id appears version =>
      if (result.patch id appears version).1 = .applied then some version else none
  | _ => none

/-- An identity that a use makes a member or none.  A patch does so if it is merged. -/
def change? (result : CachedResult) : Use → Option (EntityId × Bool)
  | .call (.add id) => some (id, true)
  | .call (.remove id) => some (id, false)
  | .patch id appears version =>
      if (result.patch id appears version).1 = .applied then some (id, appears) else none
  | _ => none

/-- The versions of the merged patches of a run, oldest first. -/
def merged : CachedResult → List Use → List Nat
  | _, [] => []
  | result, use :: rest => (result.merged? use).toList ++ merged (result.use use) rest

/-- The changes of a run, oldest first. -/
def changes : CachedResult → List Use → List (EntityId × Bool)
  | _, [] => []
  | result, use :: rest => (result.change? use).toList ++ changes (result.use use) rest

/-- Make changes to a set, one after the other. -/
def replay (members : Set EntityId) (changes : List (EntityId × Bool)) : Set EntityId :=
  changes.foldl (fun current change =>
    if change.2 then insert change.1 current else current \ {change.1}) members

theorem replay_append (members : Set EntityId) (first second : List (EntityId × Bool)) :
    replay members (first ++ second) = replay (replay members first) second :=
  List.foldl_append

/-- The members of a result as a set. -/
def memberSet (result : CachedResult) : Set EntityId :=
  {id | id ∈ result.ids}

theorem memberSet_setMember (result : CachedResult) (id : EntityId) (appears : Bool) :
    (result.setMember id appears).2.memberSet = replay result.memberSet [(id, appears)] := by
  ext other
  change other ∈ (result.setMember id appears).2.ids ↔ _
  rw [mem_setMember]
  cases appears <;> by_cases same : other = id <;> simp [replay, memberSet, same]

/-! ## One use -/

/-- What one use does to a result. -/
structure Step (before : CachedResult) (use : Use) (after : CachedResult) : Prop where
  coherent : before.Coherent → after.Coherent
  members : after.memberSet = replay before.memberSet (before.change? use).toList
  computedAt : after.computedAt = before.computedAt
  serial : after.serial = before.serial
  version : after.version = (before.merged? use).getD before.version
  inOrder : ∀ version ∈ before.merged? use,
    before.computedAt < version ∧ before.version ≤ version

theorem Step.of_setMember (result : CachedResult) {use : Use} {id : EntityId} {appears : Bool}
    (unmerged : result.merged? use = none) (changes : result.change? use = some (id, appears)) :
    Step result use (result.setMember id appears).2 where
  coherent coherent := coherent.setMember id appears
  members := by
    rw [changes]
    exact memberSet_setMember result id appears
  computedAt := rfl
  serial := rfl
  version := by
    rw [unmerged]
    rfl
  inOrder := by
    rw [unmerged]
    exact nofun

/-- A use that changes nothing but the view. -/
theorem Step.of_view {result after : CachedResult} {use : Use}
    (unmerged : result.merged? use = none) (unchanged : result.change? use = none)
    (coherent : result.Coherent → after.Coherent) (rest : ∃ view, after = { result with view }) :
    Step result use after := by
  rcases rest with ⟨view, rfl⟩
  constructor
  case coherent => exact coherent
  case members =>
    rw [unchanged]
    rfl
  case computedAt => rfl
  case serial => rfl
  case version =>
    rw [unmerged]
    rfl
  case inOrder =>
    rw [unmerged]
    exact nofun

theorem step_patch (result : CachedResult) (id : EntityId) (appears : Bool) (version : Nat) :
    Step result (.patch id appears version) (result.patch id appears version).2 := by
  rcases result.patch_cases id appears version with
    ⟨refused, unchanged⟩ | ⟨applied, above, inOrder, after⟩
  · have unmerged : result.merged? (.patch id appears version) = none := if_neg refused
    have unaffected : result.change? (.patch id appears version) = none := if_neg refused
    rw [unchanged]
    exact .of_view unmerged unaffected (fun coherent => coherent) ⟨result.view, rfl⟩
  · have merges : result.merged? (.patch id appears version) = some version := if_pos applied
    have changes : result.change? (.patch id appears version) = some (id, appears) :=
      if_pos applied
    rw [after]
    constructor
    case coherent =>
      intro coherent
      exact coherent.setMember id appears
    case members =>
      rw [changes]
      exact memberSet_setMember result id appears
    case computedAt => rfl
    case serial => rfl
    case version =>
      rw [merges]
      rfl
    case inOrder =>
      intro other same
      rw [merges] at same
      cases same
      exact ⟨above, inOrder⟩

theorem step_use (result : CachedResult) (use : Use) : Step result use (result.use use) := by
  cases use with
  | call call =>
      cases call with
      | add id => exact .of_setMember result rfl rfl
      | remove id => exact .of_setMember result rfl rfl
      | contains | size | debugText =>
          exact .of_view rfl rfl (fun coherent => coherent) ⟨result.view, rfl⟩
      | member | hasMember | dump =>
          exact .of_view rfl rfl (fun coherent => coherent.toSet) result.toSet_after
  | patch id appears version => exact step_patch result id appears version
  | read => exact .of_view rfl rfl (fun coherent => coherent.toSet) result.toSet_after

/-! ## Runs of uses -/

theorem coherent_useAll {result : CachedResult} (coherent : result.Coherent) (uses : List Use) :
    (result.useAll uses).Coherent := by
  induction uses generalizing result with
  | nil => exact coherent
  | cons use rest inductionHypothesis =>
      exact inductionHypothesis ((step_use result use).coherent coherent)

theorem memberSet_useAll (result : CachedResult) (uses : List Use) :
    (result.useAll uses).memberSet = replay result.memberSet (changes result uses) := by
  induction uses generalizing result with
  | nil => rfl
  | cons use rest inductionHypothesis =>
      have step := (step_use result use).members
      calc
        (result.useAll (use :: rest)).memberSet = ((result.use use).useAll rest).memberSet := rfl
        _ = replay (replay result.memberSet (result.change? use).toList)
              (changes (result.use use) rest) := by rw [inductionHypothesis, step]
        _ = replay result.memberSet (changes result (use :: rest)) :=
            (replay_append _ _ _).symm

theorem computedAt_useAll (result : CachedResult) (uses : List Use) :
    (result.useAll uses).computedAt = result.computedAt := by
  induction uses generalizing result with
  | nil => rfl
  | cons use rest inductionHypothesis =>
      exact (inductionHypothesis (result.use use)).trans (step_use result use).computedAt

theorem serial_useAll (result : CachedResult) (uses : List Use) :
    (result.useAll uses).serial = result.serial := by
  induction uses generalizing result with
  | nil => rfl
  | cons use rest inductionHypothesis =>
      exact (inductionHypothesis (result.use use)).trans (step_use result use).serial

theorem version_useAll (result : CachedResult) (uses : List Use) :
    (result.useAll uses).version = (merged result uses).getLastD result.version := by
  induction uses generalizing result with
  | nil => rfl
  | cons use rest inductionHypothesis =>
      have step := (step_use result use).version
      change ((result.use use).useAll rest).version = _
      rw [inductionHypothesis, step, merged]
      cases result.merged? use with
      | none => rfl
      | some version => exact List.getLastD_cons.symm

/-- Patches are merged in the order of their versions, none at or before the computation. -/
theorem ascending_merged (result : CachedResult) (uses : List Use) :
    (∀ version ∈ merged result uses, result.computedAt < version) ∧
      (result.version :: merged result uses).Pairwise (· ≤ ·) := by
  induction uses generalizing result with
  | nil => exact ⟨nofun, List.pairwise_singleton _ _⟩
  | cons use rest inductionHypothesis =>
      have step := step_use result use
      rcases inductionHypothesis (result.use use) with ⟨above, ascending⟩
      rw [step.computedAt] at above
      rw [step.version] at ascending
      rw [merged]
      cases merges : result.merged? use with
      | none =>
          rw [merges] at ascending
          exact ⟨above, ascending⟩
      | some version =>
          rw [merges] at ascending
          rcases step.inOrder version merges with ⟨aboveFirst, notBelow⟩
          constructor
          · intro other member
            rcases List.mem_cons.1 member with same | later
            · subst other
              exact aboveFirst
            · exact above other later
          · apply List.pairwise_cons.2
            constructor
            · intro other member
              rcases List.mem_cons.1 member with same | later
              · subst other
                exact notBelow
              · exact Nat.le_trans notBelow ((List.pairwise_cons.1 ascending).1 other later)
            · exact ascending

/-! ## The view -/

/-- What a result shows that was computed with some members at a version, and then changed. -/
structure Shows (result : CachedResult) (members : Set EntityId) (computed : Nat)
    (merges : List Nat) : Prop where
  ascending : result.toSet.1.ids.Pairwise (· < ·)
  view : ∀ id, id ∈ result.toSet.1 ↔ id ∈ members
  size : result.size = result.toSet.1.ids.length
  isEmpty : result.isEmpty = true ↔ result.toSet.1.ids = []
  contains : ∀ id, result.contains id = true ↔ id ∈ result.toSet.1
  search : ∀ id, result.toSet.1.search id = true ↔ id ∈ result.toSet.1
  computedAt : result.computedAt = computed
  /-- The version is that of the last merged patch, or of the computation where there is none. -/
  version : result.version = merges.getLastD computed
  mergedAbove : ∀ version ∈ merges, computed < version
  mergedInOrder : merges.Pairwise (· ≤ ·)
  /-- A patch is contained at or before the computation, late before the last merged patch, and
  merged otherwise. -/
  outcome : ∀ id appears version, (result.patch id appears version).1 =
    if version ≤ computed then .skipped
    else if version < merges.getLastD computed then .outOfOrder else .applied
  /-- A merged patch makes its identity a member or none, and concerns no other. -/
  merged : ∀ id appears version, (result.patch id appears version).1 = .applied →
    (result.patch id appears version).2.version = version ∧
      ∀ other, other ∈ (result.patch id appears version).2.toSet.1 ↔
        if other = id then appears = true else other ∈ members
  /-- A patch that is not merged changes nothing. -/
  refused : ∀ id appears version, (result.patch id appears version).1 ≠ .applied →
    (result.patch id appears version).2 = result

/-- After any run of uses, a result shows the identities that it was computed with and the changes
that were made since, and takes the next patch by its version. -/
theorem shows_useAll (key : QueryKey) (version : Nat) (ids : List EntityId) (serial : Nat)
    (uses : List Use) :
    let start := ofIds key version ids serial
    Shows (start.useAll uses) (replay {id | id ∈ ids} (changes start uses)) version
      (merged start uses) := by
  intro start
  have coherent := coherent_useAll (coherent_ofIds key version ids serial) uses
  have shown : (start.useAll uses).toSet.1 = (start.useAll uses).ids := coherent.toSet_eq
  have first : start.memberSet = {id | id ∈ ids} := by
    ext id
    exact IdSet.mem_ofList
  have members := memberSet_useAll start uses
  rw [first] at members
  have inOrder := ascending_merged start uses
  have computedAt : (start.useAll uses).computedAt = version := computedAt_useAll start uses
  have current : (start.useAll uses).version = (CachedResult.merged start uses).getLastD version :=
    version_useAll start uses
  constructor
  case ascending => exact IdSet.ascending _
  case view =>
    intro id
    rw [shown, ← members]
    exact Iff.rfl
  case size =>
    rw [shown]
    rfl
  case isEmpty =>
    rw [shown]
    exact List.isEmpty_iff
  case contains =>
    intro id
    rw [shown]
    exact IdSet.contains_iff_mem
  case search => exact fun id => IdSet.search_iff_mem
  case computedAt => exact computedAt
  case version => exact current
  case mergedAbove => exact inOrder.1
  case mergedInOrder => exact (List.pairwise_cons.1 inOrder.2).2
  case outcome =>
    intro id appears later
    rw [outcome_patch, computedAt, current]
  case merged =>
    intro id appears later applied
    rcases coherent.toSet_patch applied with ⟨sameVersion, shows⟩
    refine ⟨sameVersion, fun other => ?_⟩
    rw [shows, ← members]
    exact Iff.rfl
  case refused =>
    intro id appears version refused
    rcases (start.useAll uses).patch_cases id appears version with ⟨_, unchanged⟩ | ⟨applied, _⟩
    · exact unchanged
    · exact absurd applied refused

/-- The view is made, kept by a patch that comes too late, and given up by a removal. -/
example :
    let start := ofIds (Query.ofType 1).key 3 [⟨1, 2⟩, ⟨1, 1⟩] 0
    let uses : List Use := [.read, .patch ⟨1, 4⟩ true 5, .read, .patch ⟨1, 5⟩ true 4,
      .patch ⟨1, 9⟩ true 2, .call (.remove ⟨1, 1⟩)]
    changes start uses = [(⟨1, 4⟩, true), (⟨1, 1⟩, false)] ∧ merged start uses = [5] ∧
      (start.useAll uses).toSet.1.ids = [⟨1, 2⟩, ⟨1, 4⟩] := by
  decide +kernel

end CachedResult

end EntityQuery
