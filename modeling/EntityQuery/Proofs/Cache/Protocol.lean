import EntityQuery.Proofs.Cache.History
import EntityQuery.Proofs.Cache.Kept
import EntityQuery.Proofs.Engine.Succeeds

/-!
# The snapshot protocol

Notifications reach the cache in any order, late and more than once, while readers of different
snapshots look results up and compute new ones.  A reader starts only after everything up to its
snapshot was notified at least once, and a computation answers the truth at its snapshot; between its
look-up and its publication anything may happen.

The invariant says of a kept result that its members are decided by what was notified after the
snapshot it was computed at, that none of this invalidates it, and that its version is not below any
patch among it.  A reader that is served is not older than the version, so what was notified after
the computation and what was committed up to the reader's snapshot contain the same patches.
-/

namespace EntityQuery

/-- A computation between its look-up and its publication. -/
structure Computation where
  query : Query
  snapshot : Nat

/-- A result that a reader at a snapshot was given. -/
structure Returned where
  query : Query
  snapshot : Nat
  result : CachedResult

/-- A cache between its notifiers and its readers. -/
structure ProtocolRun where
  cache : ResultCache
  /-- The notifications that were delivered so far. -/
  delivered : List (Nat × Mutation)
  computing : List Computation

/-- A mutation was notified at a version. -/
def Told (delivered : List (Nat × Mutation)) (version : Nat) (mutation : Mutation) : Prop :=
  (version, mutation) ∈ delivered

namespace ProtocolRun

/-- Everything up to a snapshot was notified at least once. -/
def Complete (history : History) (run : ProtocolRun) (snapshot : Nat) : Prop :=
  ∀ version mutation, version ≤ snapshot → mutation ∈ history.changes version →
    Told run.delivered version mutation

/-- Deliver a notification. -/
def deliver (run : ProtocolRun) (version : Nat) (mutation : Mutation) : ProtocolRun :=
  { run with
    cache := (mutation.notify run.cache version).1
    delivered := (version, mutation) :: run.delivered }

/-- Look a result up. -/
def look (run : ProtocolRun) (query : Query) (snapshot : Nat) : ProtocolRun :=
  { run with cache := (run.cache.lookup query.key snapshot).2.1 }

/-- Publish what a computation answered. -/
def publish (run : ProtocolRun) (query : Query) (snapshot : Nat) (ids : List EntityId)
    (others : List Computation) : ProtocolRun :=
  { run with
    cache := (run.cache.publish query.key snapshot ids).2.1
    computing := others }

/--
One step of a run, with the result that it returns.  A look-up that finds nothing either ends there
or begins a computation.
-/
inductive Step (history : History) : ProtocolRun → Option Returned → ProtocolRun → Prop
  | delivered {run : ProtocolRun} {version : Nat} {mutation : Mutation} :
      mutation ∈ history.changes version →
        Step history run none (run.deliver version mutation)
  | found {run : ProtocolRun} {query : Query} {snapshot : Nat} {result : CachedResult} :
      run.Complete history snapshot →
        (run.cache.lookup query.key snapshot).1 = some result →
          Step history run (some ⟨query, snapshot, result⟩) (run.look query snapshot)
  | missed {run : ProtocolRun} {query : Query} {snapshot : Nat} :
      run.Complete history snapshot → (run.cache.lookup query.key snapshot).1 = none →
        Step history run none (run.look query snapshot)
  | began {run : ProtocolRun} {query : Query} {snapshot : Nat} :
      run.Complete history snapshot → (run.cache.lookup query.key snapshot).1 = none →
        Step history run none
          { run.look query snapshot with computing := ⟨query, snapshot⟩ :: run.computing }
  /-- A computation answers the truth at its snapshot, which is published and returned. -/
  | computed {run : ProtocolRun} {query : Query} {snapshot : Nat} {ids : List EntityId}
      {others : List Computation} :
      run.computing.Perm (⟨query, snapshot⟩ :: others) →
        (∀ id, id ∈ ids ↔ id ∈ query.members (history.storeAt snapshot)) →
          Step history run
            (some ⟨query, snapshot, (run.cache.publish query.key snapshot ids).1⟩)
            (run.publish query snapshot ids others)
  /-- A computation that fails publishes nothing. -/
  | failed {run : ProtocolRun} {query : Query} {snapshot : Nat} {others : List Computation} :
      run.computing.Perm (⟨query, snapshot⟩ :: others) →
        Step history run none { run with computing := others }
  | invalidated {run : ProtocolRun} (key : QueryKey) :
      Step history run none { run with cache := (run.cache.invalidate key).2.1 }
  | cleared {run : ProtocolRun} :
      Step history run none { run with cache := run.cache.invalidateAll.1 }
  | reclaimed {run : ProtocolRun} (wanted : Nat) :
      Step history run none { run with cache := (run.cache.reclaimColdest wanted).2.1 }

/-- The states of all runs from an empty cache of an accepted configuration. -/
inductive Reachable (history : History) : ProtocolRun → Prop
  | start {config : CacheConfig} {firstSerial : Nat} {cache : ResultCache} :
      ResultCache.ofConfig config firstSerial = .ok cache → Reachable history ⟨cache, [], []⟩
  | step {before after : ProtocolRun} {returned : Option Returned} :
      Reachable history before → Step history before returned after → Reachable history after

end ProtocolRun

/-! ## Kept results follow what was notified -/

/-- A kept result of a query follows what was notified after it was computed. -/
structure CachedResult.Follows (history : History) (told : Nat → Mutation → Prop) (query : Query)
    (result : CachedResult) : Prop where
  computed : result.computedAt ≤ result.version
  valid : ∀ version mutation, told version mutation → result.computedAt < version →
    mutation.reaction query.key ≠ .invalidate
  merged : ∀ id version appears,
    PatchedAt told query.key result.computedAt id version appears → version ≤ result.version
  members : ∀ id, Decides told query.key result.computedAt
    (id ∈ query.members (history.storeAt result.computedAt)) id (id ∈ result.ids)

namespace CachedResult

variable {history : History} {told : Nat → Mutation → Prop} {query : Query}
  {old result : CachedResult}

/-- A result that follows everything up to a snapshot and is not newer is the truth there. -/
theorem Follows.mem_iff (follows : result.Follows history told query) {snapshot : Nat}
    (committed : ∀ version mutation, told version mutation → mutation ∈ history.changes version)
    (complete : ∀ version mutation, version ≤ snapshot → mutation ∈ history.changes version →
      told version mutation)
    (current : result.version ≤ snapshot) (id : EntityId) :
    id ∈ result.ids ↔ id ∈ query.members (history.storeAt snapshot) := by
  have valid : ∀ between mutation, result.computedAt < between → between ≤ snapshot →
      mutation ∈ history.changes between → mutation.reaction query.key ≠ .invalidate := by
    intro between mutation above below member
    exact follows.valid between mutation (complete between mutation below member) above
  have truth := history.decides_members (Nat.le_trans follows.computed current) valid id
  have samePatches (version : Nat) (appears : Bool) :
      PatchedAt told query.key result.computedAt id version appears ↔
        PatchedAt (history.Committed snapshot) query.key result.computedAt id version appears := by
    constructor
    · intro patch
      have merged := follows.merged id version appears patch
      obtain ⟨above, mutation, notified, patches⟩ := patch
      exact ⟨above, mutation, ⟨Nat.le_trans merged current, committed _ _ notified⟩, patches⟩
    · rintro ⟨above, mutation, ⟨below, member⟩, patches⟩
      exact ⟨above, mutation, complete version mutation below member, patches⟩
  refine Decides.unique ?_ ((follows.members id).congr samePatches) truth
  rintro version appears otherAppears ⟨_, first, ⟨_, firstMember⟩, firstPatch⟩
    ⟨_, second, ⟨_, secondMember⟩, secondPatch⟩
  exact history.patch_unique firstMember secondMember firstPatch secondPatch

/-- A result that was just computed follows whatever is not newer than it. -/
theorem follows_ofIds {snapshot serial : Nat} {ids : List EntityId}
    (truth : ∀ id, id ∈ ids ↔ id ∈ query.members (history.storeAt snapshot))
    (notNewer : ∀ version mutation, told version mutation → version ≤ snapshot) :
    (ofIds query.key snapshot ids serial).Follows history told query := by
  have unpatched (id : EntityId) (version : Nat) (appears : Bool) :
      ¬ PatchedAt told query.key snapshot id version appears := by
    rintro ⟨above, mutation, notified, _⟩
    exact absurd (notNewer version mutation notified) (Nat.not_le.2 above)
  refine ⟨Nat.le_refl _, ?_, ?_, ?_⟩
  · intro version mutation notified above
    exact absurd (notNewer version mutation notified) (Nat.not_le.2 above)
  · intro id version appears patch
    exact absurd patch (unpatched id version appears)
  · intro id
    exact .unpatched (unpatched id) (IdSet.mem_ofList.trans (truth id))

theorem patchedAt_told_cons {delivered : List (Nat × Mutation)} {key : QueryKey}
    {since version notified : Nat} {mutation : Mutation} {id : EntityId} {appears : Bool} :
    PatchedAt (Told ((notified, mutation) :: delivered)) key since id version appears ↔
      PatchedAt (Told delivered) key since id version appears ∨
        (since < notified ∧ version = notified ∧ mutation.patch? key = some (id, appears)) := by
  constructor
  · rintro ⟨above, other, notification, patches⟩
    rcases List.mem_cons.1 notification with same | earlier
    · cases same
      exact .inr ⟨above, rfl, patches⟩
    · exact .inl ⟨above, other, earlier, patches⟩
  · rintro (⟨above, other, earlier, patches⟩ | ⟨above, rfl, patches⟩)
    · exact ⟨above, other, List.mem_cons_of_mem _ earlier, patches⟩
    · exact ⟨above, mutation, List.mem_cons_self, patches⟩

/-- A notification that does not patch an identity adds nothing to its patches. -/
theorem patchedAt_told_cons_of_ne {delivered : List (Nat × Mutation)} {key : QueryKey}
    {since notified : Nat} {mutation : Mutation} {id : EntityId}
    (unpatched : since < notified → ∀ appears, mutation.patch? key ≠ some (id, appears))
    (version : Nat) (appears : Bool) :
    PatchedAt (Told delivered) key since id version appears ↔
      PatchedAt (Told ((notified, mutation) :: delivered)) key since id version appears := by
  rw [patchedAt_told_cons]
  constructor
  · exact .inl
  · rintro (earlier | ⟨above, _, patches⟩)
    · exact earlier
    · exact absurd patches (unpatched above appears)

section Notify

variable {delivered : List (Nat × Mutation)} {version : Nat} {mutation : Mutation}

theorem Follows.valid_cons (follows : old.Follows history (Told delivered) query)
    (valid : mutation.reaction query.key ≠ .invalidate) (between : Nat) (other : Mutation)
    (notification : Told ((version, mutation) :: delivered) between other)
    (above : old.computedAt < between) : other.reaction query.key ≠ .invalidate := by
  rcases List.mem_cons.1 notification with same | earlier
  · cases same
    exact valid
  · exact follows.valid between other earlier above

/-- A notification that patches nothing after the computation leaves the result as it is. -/
theorem Follows.unchanged (follows : old.Follows history (Told delivered) query)
    (valid : mutation.reaction query.key ≠ .invalidate)
    (unpatched : old.computedAt < version → mutation.patch? query.key = none) :
    old.Follows history (Told ((version, mutation) :: delivered)) query := by
  have without (id : EntityId) (above : old.computedAt < version) (appears : Bool) :
      mutation.patch? query.key ≠ some (id, appears) := by
    rw [unpatched above]
    exact nofun
  refine ⟨follows.computed, follows.valid_cons valid, ?_, ?_⟩
  · intro id other appears patch
    apply follows.merged id other appears
    exact (patchedAt_told_cons_of_ne (without id) other appears).2 patch
  · intro id
    exact (follows.members id).congr (patchedAt_told_cons_of_ne (without id))

/-- A merged patch is the last one of its identity; the other identities keep theirs. -/
theorem Follows.patched (follows : old.Follows history (Told delivered) query)
    (valid : mutation.reaction query.key ≠ .invalidate) {changed : EntityId} {appears : Bool}
    (patches : mutation.patch? query.key = some (changed, appears))
    (above : old.computedAt < version) (inOrder : old.version ≤ version) :
    CachedResult.Follows history (Told ((version, mutation) :: delivered)) query
      { (old.setMember changed appears).2 with version := version } := by
  refine ⟨Nat.le_of_lt above, follows.valid_cons valid, ?_, ?_⟩
  · intro id other otherAppears patch
    rcases patchedAt_told_cons.1 patch with earlier | ⟨_, same, _⟩
    · exact Nat.le_trans (follows.merged id other otherAppears earlier) inOrder
    · exact Nat.le_of_eq same
  · intro id
    by_cases same : id = changed
    · subst same
      refine .patched (patchedAt_told_cons.2 (.inr ⟨above, rfl, patches⟩)) ?_ ?_
      · intro other otherAppears patch
        rcases patchedAt_told_cons.1 patch with earlier | ⟨_, sameVersion, _⟩
        · exact Nat.le_trans (follows.merged id other otherAppears earlier) inOrder
        · exact Nat.le_of_eq sameVersion
      · rw [mem_setMember, if_pos rfl]
    · have without (_ : old.computedAt < version) (otherAppears : Bool) :
          mutation.patch? query.key ≠ some (id, otherAppears) := by
        rw [patches]
        rintro ⟨⟩
        exact same rfl
      have unchanged : id ∈ (old.setMember changed appears).2.ids ↔ id ∈ old.ids := by
        rw [mem_setMember, if_neg same]
      cases (follows.members id).congr (patchedAt_told_cons_of_ne without) with
      | patched patch last truth => exact .patched patch last (unchanged.trans truth)
      | unpatched without truth => exact .unpatched without (unchanged.trans truth)

theorem Follows.notify (follows : old.Follows history (Told delivered) query)
    (valid : mutation.reaction query.key ≠ .invalidate)
    (leaves : mutation.Leaves version query.key old result) :
    result.Follows history (Told ((version, mutation) :: delivered)) query := by
  cases leaves with
  | untouched unpatched => exact follows.unchanged valid fun _ => unpatched
  | contained _ contained =>
      exact follows.unchanged valid fun above => absurd contained (Nat.not_le.2 above)
  | merged patches above inOrder => exact follows.patched valid patches above inOrder

end Notify

end CachedResult

/-! ## Runs -/

namespace ProtocolRun

/-- Notifications tell of commits, and every kept result follows them. -/
structure Consistent (history : History) (run : ProtocolRun) : Prop where
  committed : ∀ version mutation, Told run.delivered version mutation →
    mutation ∈ history.changes version
  latest : ∀ version mutation, Told run.delivered version mutation →
    version ≤ run.cache.latestVersion
  kept : run.cache.Every fun key result => ∃ query : Query, query.key = key ∧
    result.Follows history (Told run.delivered) query

variable {history : History} {run before after : ProtocolRun} {returned : Option Returned}

/-- Operations that only forget results keep the invariant. -/
theorem Consistent.forget {cache : ResultCache} {computing : List Computation}
    (consistent : run.Consistent history) (latest : cache.latestVersion = run.cache.latestVersion)
    (forgets : ∀ holds, run.cache.Every holds → cache.Every holds) :
    Consistent history ⟨cache, run.delivered, computing⟩ where
  committed := consistent.committed
  latest version mutation told := by
    rw [latest]
    exact consistent.latest version mutation told
  kept := forgets _ consistent.kept

theorem Consistent.look (consistent : run.Consistent history) (query : Query) (snapshot : Nat) :
    (run.look query snapshot).Consistent history :=
  consistent.forget (run.cache.lookup_spec query.key snapshot).2.1
    fun _ every => every.lookup query.key snapshot

theorem Consistent.deliver (consistent : run.Consistent history) {version : Nat}
    {mutation : Mutation} (member : mutation ∈ history.changes version) :
    (run.deliver version mutation).Consistent history where
  committed other notified told := by
    rcases List.mem_cons.1 told with same | earlier
    · cases same
      exact member
    · exact consistent.committed other notified earlier
  latest other notified told := by
    show other ≤ (mutation.notify run.cache version).1.latestVersion
    rw [Mutation.latestVersion_notify]
    rcases List.mem_cons.1 told with same | earlier
    · cases same
      exact Nat.le_max_right _ _
    · exact Nat.le_trans (consistent.latest other notified earlier) (Nat.le_max_left _ _)
  kept key result present := by
    obtain ⟨old, oldPresent, valid, leaves⟩ := Mutation.mem_of_mem_notify present
    obtain ⟨query, rfl, follows⟩ := consistent.kept key old oldPresent
    exact ⟨query, rfl, follows.notify valid leaves⟩

theorem Consistent.publish (consistent : run.Consistent history) {query : Query} {snapshot : Nat}
    {ids : List EntityId} (others : List Computation)
    (truth : ∀ id, id ∈ ids ↔ id ∈ query.members (history.storeAt snapshot)) :
    (run.publish query snapshot ids others).Consistent history where
  committed := consistent.committed
  latest version mutation told := by
    show version ≤ (run.cache.publish query.key snapshot ids).2.1.latestVersion
    rw [ResultCache.latestVersion_publish]
    exact consistent.latest version mutation told
  kept := by
    refine consistent.kept.publish fun notOlder => ⟨query, rfl, ?_⟩
    refine CachedResult.follows_ofIds truth fun version mutation told => ?_
    exact Nat.le_trans (consistent.latest version mutation told) notOlder

theorem consistent_step (consistent : before.Consistent history)
    (step : Step history before returned after) : after.Consistent history := by
  cases step with
  | delivered member => exact consistent.deliver member
  | found | missed => exact consistent.look _ _
  | began => exact (consistent.look _ _).forget rfl fun _ every => every
  | computed _ truth => exact consistent.publish _ truth
  | failed _ => exact consistent.forget rfl fun _ every => every
  | invalidated key => exact consistent.forget rfl fun _ every => every.invalidate key
  | cleared => exact consistent.forget rfl fun _ _ => ResultCache.every_invalidateAll
  | reclaimed wanted => exact consistent.forget rfl fun _ every => every.reclaimColdest wanted

theorem consistent_of_reachable (reachable : Reachable history run) : run.Consistent history := by
  induction reachable with
  | start accepted => exact ⟨nofun, nofun, ResultCache.every_ofConfig accepted⟩
  | step _ step inductionHypothesis => exact consistent_step inductionHypothesis step

/-- A step from a consistent state returns the truth. -/
theorem Consistent.mem_returned {query : Query} {snapshot : Nat} {result : CachedResult}
    (consistent : before.Consistent history)
    (step : Step history before (some ⟨query, snapshot, result⟩) after) (id : EntityId) :
    id ∈ result.ids ↔ id ∈ query.members (history.storeAt snapshot) := by
  cases step with
  | found complete found =>
      obtain ⟨_, _, served⟩ := before.cache.lookup_spec query.key snapshot
      obtain ⟨present, current⟩ := served result found
      obtain ⟨other, sameKey, follows⟩ := consistent.kept query.key result present
      rw [follows.mem_iff consistent.committed complete current id,
        Query.members_congr_key _ sameKey]
  | computed _ truth => exact IdSet.mem_ofList.trans (truth id)

/--
Whatever the order and the number of deliveries, every result that a run returns to a reader of a
snapshot holds the entities that its query stands for at that snapshot, and no others.
-/
theorem returned_exact {query : Query} {snapshot : Nat} {result : CachedResult}
    (reachable : Reachable history before)
    (step : Step history before (some ⟨query, snapshot, result⟩) after) (id : EntityId) :
    id ∈ result.ids ↔ id ∈ query.members (history.storeAt snapshot) :=
  (consistent_of_reachable reachable).mem_returned step id

/-- The history of a store to which one entity is added at version one. -/
def oneCommit (start : MemoryStore) (entity : EntityId) (absent : start.Absent entity) :
    History where
  start
  storeAt
    | 0 => start
    | _ + 1 => start.addEntity entity
  changes
    | 1 => [.added entity]
    | _ => []
  leads_zero := .settled (.refl _)
  leads_succ version := by
    cases version with
    | zero => exact .next (.added absent (.refl _)) (.settled (.refl _))
    | succ version => exact .settled (.refl _)
  distinct version := by
    match version with
    | 0 | _ + 2 => exact List.nodup_nil
    | 1 => exact List.nodup_singleton entity

/-- A result that was computed at version zero, and then patched by a commit that was delivered
twice, is returned to a reader of version one. -/
theorem returned_exact_after_patch :
    ∃ history : History, ∃ before result after, Reachable history before ∧
      before.delivered = [(1, .added ⟨1, 2⟩), (1, .added ⟨1, 2⟩)] ∧
        (before.cache.lookup (Query.ofType 1).key 1).1 = some result ∧
          (result.computedAt, result.version, result.ids.ids) = (0, 1, [⟨1, 1⟩, ⟨1, 2⟩]) ∧
            Step history before (some ⟨.ofType 1, 1, result⟩) after ∧
              ∀ id, id ∈ result.ids ↔ id ∈ (Query.ofType 1).members (history.storeAt 1) := by
  let start : MemoryStore := MemoryStore.empty.addEntity ⟨1, 1⟩
  let history : History := oneCommit start ⟨1, 2⟩ ⟨by decide, nofun⟩
  let cache : ResultCache := ⟨.default, .ofCapacity CacheConfig.default.cacheSize, 0, 0⟩
  let started : ProtocolRun := ⟨cache, [], []⟩
  let begun : ProtocolRun := { started.look (.ofType 1) 0 with computing := [⟨.ofType 1, 0⟩] }
  let published : ProtocolRun := begun.publish (.ofType 1) 0 [⟨1, 1⟩] []
  let told : ProtocolRun := (published.deliver 1 (.added ⟨1, 2⟩)).deliver 1 (.added ⟨1, 2⟩)
  have accepted : ResultCache.ofConfig .default 0 = .ok cache := rfl
  have begins : Step history started none begun := by
    refine .began ?_ ?_
    · rintro version mutation noLater member
      obtain rfl := Nat.le_zero.1 noLater
      cases member
    · rw [Option.eq_none_iff_forall_not_mem]
      intro result found
      obtain ⟨present, _⟩ := (cache.lookup_spec (Query.ofType 1).key 0).2.2 result found
      exact PartitionedCache.notMem_entries_ofCapacity _ present
  have truth (id : EntityId) :
      id ∈ [(⟨1, 1⟩ : EntityId)] ↔ id ∈ (Query.ofType 1).members (history.storeAt 0) := Iff.rfl
  have publishes : Step history begun
      (some ⟨.ofType 1, 0, (begun.cache.publish (Query.ofType 1).key 0 [⟨1, 1⟩]).1⟩) published :=
    .computed (List.Perm.refl _) truth
  have reachable : Reachable history told :=
    ((((Reachable.start accepted).step begins).step publishes).step
      (.delivered List.mem_cons_self)).step (.delivered List.mem_cons_self)
  have complete : Complete history told 1 := by
    intro version mutation notLater member
    match version with
    | 0 => cases member
    | 1 =>
        obtain rfl := List.mem_singleton.1 member
        exact List.mem_cons_self
  have served : (told.cache.lookup (Query.ofType 1).key 1).1.map
      (fun result => (result.computedAt, result.version, result.ids.ids)) =
        some (0, 1, [⟨1, 1⟩, ⟨1, 2⟩]) := by
    decide +kernel
  obtain ⟨result, found, shown⟩ := Option.map_eq_some_iff.1 served
  have step : Step history told (some ⟨.ofType 1, 1, result⟩) (told.look (.ofType 1) 1) :=
    .found complete found
  exact ⟨history, told, result, _, reachable, rfl, found, shown, step,
    returned_exact reachable step⟩

/-! ## Whole requests

An action that finds or computes a result is a look-up, a computation and a publication.  What the
computation does to the engine may include steps of other readers and notifiers. -/

/-- A computation that starts in a run answers the truth in a later state of the run. -/
def Computes (history : History) (query : Query) (snapshot : Nat)
    (compute : Action (List EntityId)) (begun : Engine) : Prop :=
  ∃ ids engine later others, compute begun = (.ok ids, engine) ∧ engine.cache = later.cache ∧
    Reachable history later ∧ later.computing.Perm (⟨query, snapshot⟩ :: others) ∧
      ∀ id, id ∈ ids ↔ id ∈ query.members (history.storeAt snapshot)

/-- A whole request succeeds with the truth and leaves the cache of a run. -/
theorem getOrCompute_exact {query : Query} {snapshot : Nat} {engine : Engine}
    {compute : Action (List EntityId)} (reachable : Reachable history run)
    (same : engine.cache = run.cache) (complete : run.Complete history snapshot)
    (computes : ∀ begun : Engine, begun.cache = (run.look query snapshot).cache →
      Computes history query snapshot compute begun) :
    ∃ computed result final later,
      Action.getOrCompute query.key snapshot compute engine = (.ok (computed, result), final) ∧
        final.cache = later.cache ∧ Reachable history later ∧
          ∀ id, id ∈ result.ids ↔ id ∈ query.members (history.storeAt snapshot) := by
  obtain ⟨begun, begunCache, looking⟩ :=
    Action.onCache_of_cache_eq same fun cache => cache.lookup query.key snapshot
  rw [Action.getOrCompute, Action.bind_of_ok looking]
  cases found : (run.cache.lookup query.key snapshot).1 with
  | some result =>
      have step : Step history run (some ⟨query, snapshot, result⟩) (run.look query snapshot) :=
        .found complete found
      exact ⟨false, result, begun, _, rfl, begunCache, reachable.step step,
        (consistent_of_reachable reachable).mem_returned step⟩
  | none =>
      obtain ⟨ids, computedEngine, later, others, computing, laterCache, laterReachable, listed,
        truth⟩ := computes begun begunCache
      have step : Step history later
          (some ⟨query, snapshot, (later.cache.publish query.key snapshot ids).1⟩)
          (later.publish query snapshot ids others) := .computed listed truth
      obtain ⟨final, finalCache, publishing⟩ :=
        Action.onCache_of_cache_eq laterCache fun cache => cache.publish query.key snapshot ids
      refine ⟨true, _, final, _, ?_, finalCache, laterReachable.step step,
        (consistent_of_reachable laterReachable).mem_returned step⟩
      exact (Action.bind_of_ok computing).trans (Action.bind_of_ok publishing)

end ProtocolRun

end EntityQuery
