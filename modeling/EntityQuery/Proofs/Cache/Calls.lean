import EntityQuery.Proofs.Cache.Placement
import EntityQuery.Proofs.Engine.Succeeds

/-!
# Calls to a cache

Calls reach a cache in any order, with any snapshots and versions.  After every run of calls the
newest version is the newest that was notified, and every kept result is in its place, at a version
that its computation or a notification gave it, and goes back to a publication within the limit.  As
long as a key stays kept, the version of its result does not decrease.

All of this follows from two facts about one call: what every operation respects, and where a result
that is kept after the call comes from.
-/

namespace EntityQuery

/-! ## What every operation respects -/

namespace ResultCache

/-- An operation leaves the configuration and the number of partitions as they are, keeps results in
their places, and counts no look-up of a disabled cache. -/
structure Respects (before after : ResultCache) : Prop where
  config : after.config = before.config
  count : after.results.count = before.results.count
  placed : before.results.Placed → after.results.Placed
  attempts : before.config.enabled = false → after.results.attempts ≤ before.results.attempts

variable {before middle after : ResultCache}

theorem Respects.refl (cache : ResultCache) : cache.Respects cache where
  config := rfl
  count := rfl
  placed placed := placed
  attempts _ := Nat.le_refl _

theorem Respects.trans (first : before.Respects middle) (second : middle.Respects after) :
    before.Respects after where
  config := second.config.trans first.config
  count := second.count.trans first.count
  placed placed := second.placed (first.placed placed)
  attempts disabled :=
    Nat.le_trans (second.attempts (first.config ▸ disabled)) (first.attempts disabled)

theorem respects_lookup (cache : ResultCache) (key : QueryKey) (snapshot : Nat) :
    cache.Respects (cache.lookup key snapshot).2.1 := by
  rcases cache.lookup_cases key snapshot with ⟨_, unchanged⟩ | ⟨enabled, looked⟩
  · rw [unchanged]
    exact .refl cache
  · rw [looked]
    constructor
    · rfl
    · rfl
    · intro placed
      exact placed.tryGet key
    · intro disabled
      rw [enabled] at disabled
      cases disabled

theorem respects_offer (cache : ResultCache) (materialized : Nat) (result : CachedResult) :
    cache.Respects (cache.offer materialized result).2.1 := by
  rcases cache.offer_cases materialized result with refused | ⟨_, _, offered⟩
  · rw [refused]
    exact .refl cache
  · rw [offered]
    obtain ⟨change, touched⟩ := cache.results.exists_insertIf_eq_touch result.key result
      (cache.admits result.version)
    constructor
    · rfl
    · rw [touched]
      rfl
    · intro placed
      exact placed.insertIf _ _ _
    · intro _
      rw [touched]
      exact Nat.le_refl _

theorem respects_publish (cache : ResultCache) (key : QueryKey) (snapshot : Nat)
    (ids : List EntityId) : cache.Respects (cache.publish key snapshot ids).2.1 := by
  have numbered : cache.Respects { cache with nextSerial := cache.nextSerial + 1 } :=
    ⟨rfl, rfl, id, fun _ => Nat.le_refl _⟩
  exact numbered.trans (respects_offer _ _ _)

theorem respects_notify (cache : ResultCache) (version : Nat) (mutation : Mutation) :
    cache.Respects (mutation.notify cache version).1 := by
  cases mutation with
  | added | removed | relinked =>
      constructor
      · rfl
      · rfl
      · intro placed
        exact placed.revise _ _
      · intro _
        exact Nat.le_refl _

theorem respects_invalidate (cache : ResultCache) (key : QueryKey) :
    cache.Respects (cache.invalidate key).2.1 where
  config := rfl
  count := rfl
  placed placed := placed.remove key
  attempts _ := Nat.le_refl _

theorem respects_invalidateAll (cache : ResultCache) :
    cache.Respects cache.invalidateAll.1 where
  config := rfl
  count := rfl
  placed _ := .clear cache.results
  attempts _ := Nat.zero_le _

theorem respects_reclaimColdest (cache : ResultCache) (wanted : Nat) :
    cache.Respects (cache.reclaimColdest wanted).2.1 where
  config := rfl
  count := rfl
  placed placed := placed.reclaim wanted
  attempts _ := Nat.le_refl _

theorem find?_lookup (cache : ResultCache) (key : QueryKey) (snapshot : Nat) :
    (cache.lookup key snapshot).2.1.results.find? key = cache.results.find? key := by
  rcases cache.lookup_cases key snapshot with ⟨_, unchanged⟩ | ⟨_, looked⟩
  · rw [unchanged]
  · rw [looked]
    exact cache.results.find?_tryGet key

end ResultCache

/-! ## Calls -/

/-- A call to a cache. -/
inductive CacheCall where
  | lookup (key : QueryKey) (snapshot : Nat)
  /-- Find a result or compute one; the outcome is that of the computation. -/
  | getOrCompute (key : QueryKey) (snapshot : Nat) (outcome : Except QueryError (List EntityId))
  /-- The end of a request whose computation made other calls; its look-up is a call before them. -/
  | publish (key : QueryKey) (snapshot : Nat) (ids : List EntityId)
  | notify (version : Nat) (mutation : Mutation)
  | invalidate (key : QueryKey)
  | invalidateAll
  | reclaimColdest (wanted : Nat)

namespace CacheCall

/-- Make a call, whatever it answers. -/
def make (engine : Engine) : CacheCall → Engine
  | .lookup key snapshot => (Action.onCache (fun cache => cache.lookup key snapshot) engine).2
  | .getOrCompute key snapshot outcome =>
      (Action.getOrCompute key snapshot (Action.ofExcept outcome) engine).2
  | .publish key snapshot ids =>
      (Action.onCache (fun cache => cache.publish key snapshot ids) engine).2
  | .notify version mutation =>
      (Action.onCacheOnly (fun cache => mutation.notify cache version) engine).2
  | .invalidate key => (Action.onCache (fun cache => cache.invalidate key) engine).2
  | .invalidateAll => (Action.onCacheOnly ResultCache.invalidateAll engine).2
  | .reclaimColdest wanted =>
      (Action.onCache (fun cache => cache.reclaimColdest wanted) engine).2

/-- The version that a call notifies. -/
def notified? : CacheCall → Option Nat
  | .notify version _ => some version
  | _ => none

/-- What a call may publish: the key, the snapshot and the computed identities. -/
def publication? : CacheCall → Option (QueryKey × Nat × List EntityId)
  | .getOrCompute key snapshot (.ok ids) | .publish key snapshot ids => some (key, snapshot, ids)
  | _ => none

/-- The engine after a run of calls. -/
def makeAll (engine : Engine) (calls : List CacheCall) : Engine := calls.foldl make engine

/-! ## Whole requests -/

/-- A request is a look-up, then perhaps a computation, and then perhaps a publication. -/
theorem getOrCompute_cases (engine : Engine) (key : QueryKey) (snapshot : Nat)
    (compute : Action (List EntityId)) :
    let begun := make engine (.lookup key snapshot)
    let after := (Action.getOrCompute key snapshot compute engine).2
    after = begun ∨ (∃ error, compute begun = (.error error, after)) ∨
      ∃ ids computed, compute begun = (.ok ids, computed) ∧
        after = make computed (.publish key snapshot ids) := by
  intro begun after
  have looking : Action.onCache (fun cache => cache.lookup key snapshot) engine =
      (.ok (engine.cache.lookup key snapshot).1, begun) := rfl
  have step : after = _ := congrArg Prod.snd (Action.bind_of_ok looking)
  cases found : (engine.cache.lookup key snapshot).1 with
  | some result =>
      left
      rw [step, found]
      rfl
  | none =>
      right
      rw [found] at step
      rcases computing : compute begun with ⟨error | ids, computed⟩
      · left
        have failed : after = computed :=
          step.trans (congrArg Prod.snd (Action.bind_of_error computing))
        exact ⟨error, by rw [failed]⟩
      · right
        have published : after = make computed (.publish key snapshot ids) :=
          step.trans (congrArg Prod.snd (Action.bind_of_ok computing))
        exact ⟨ids, computed, rfl, published⟩

/-- A request whose computation makes no calls is a look-up, and perhaps a publication. -/
theorem make_getOrCompute (engine : Engine) (key : QueryKey) (snapshot : Nat)
    (outcome : Except QueryError (List EntityId)) :
    make engine (.getOrCompute key snapshot outcome) = make engine (.lookup key snapshot) ∨
      ∃ ids, outcome = .ok ids ∧ make engine (.getOrCompute key snapshot outcome) =
        make (make engine (.lookup key snapshot)) (.publish key snapshot ids) := by
  rcases getOrCompute_cases engine key snapshot (Action.ofExcept outcome) with
    same | ⟨error, failed⟩ | ⟨ids, computed, computing, published⟩
  · exact .inl same
  · exact .inl (congrArg Prod.snd failed).symm
  · cases computing
    exact .inr ⟨ids, rfl, published⟩

/-- A request whose computation makes calls is a run of calls itself. -/
theorem exists_makeAll_getOrCompute (engine : Engine) (key : QueryKey) (snapshot : Nat)
    {compute : Action (List EntityId)}
    (calling : ∀ begun, ∃ calls, (compute begun).2.cache = (makeAll begun calls).cache) :
    ∃ calls, (Action.getOrCompute key snapshot compute engine).2.cache =
      (makeAll engine calls).cache := by
  obtain ⟨calls, called⟩ := calling (make engine (.lookup key snapshot))
  rcases getOrCompute_cases engine key snapshot compute with
    same | ⟨error, failed⟩ | ⟨ids, computed, computing, published⟩
  · exact ⟨[.lookup key snapshot], congrArg Engine.cache same⟩
  · rw [failed] at called
    exact ⟨.lookup key snapshot :: calls, called⟩
  · rw [computing] at called
    refine ⟨.lookup key snapshot :: calls ++ [.publish key snapshot ids], ?_⟩
    rw [published, makeAll, List.foldl_append]
    show (computed.cache.publish key snapshot ids).2.1 =
      ((makeAll (make engine (.lookup key snapshot)) calls).cache.publish key snapshot ids).2.1
    rw [← called]

/-! ## One call -/

theorem respects_make (engine : Engine) (call : CacheCall) :
    engine.cache.Respects (call.make engine).cache := by
  cases call with
  | lookup key snapshot => exact engine.cache.respects_lookup key snapshot
  | getOrCompute key snapshot outcome =>
      have looked := engine.cache.respects_lookup key snapshot
      rcases make_getOrCompute engine key snapshot outcome with same | ⟨ids, _, same⟩
      · rw [same]
        exact looked
      · rw [same]
        exact looked.trans (ResultCache.respects_publish _ key snapshot ids)
  | publish key snapshot ids => exact engine.cache.respects_publish key snapshot ids
  | notify version mutation => exact engine.cache.respects_notify version mutation
  | invalidate key => exact engine.cache.respects_invalidate key
  | invalidateAll => exact engine.cache.respects_invalidateAll
  | reclaimColdest wanted => exact engine.cache.respects_reclaimColdest wanted

/-- Only notifications change the newest version. -/
theorem latestVersion_make (engine : Engine) (call : CacheCall) :
    (call.make engine).cache.latestVersion =
      call.notified?.toList.foldl max engine.cache.latestVersion := by
  cases call with
  | lookup key snapshot => exact (engine.cache.lookup_spec key snapshot).2.1
  | getOrCompute key snapshot outcome =>
      have looked := (engine.cache.lookup_spec key snapshot).2.1
      rcases make_getOrCompute engine key snapshot outcome with same | ⟨ids, _, same⟩
      · rw [same]
        exact looked
      · rw [same]
        exact (ResultCache.latestVersion_publish _ key snapshot ids).trans looked
  | publish key snapshot ids => exact engine.cache.latestVersion_publish key snapshot ids
  | notify version mutation => exact Mutation.latestVersion_notify engine.cache version mutation
  | invalidate | invalidateAll | reclaimColdest => rfl

/-- Where a result that is kept after a call comes from. -/
inductive Origin (cache : ResultCache) (call : CacheCall) (key : QueryKey) : CachedResult → Prop
  | kept {result : CachedResult} :
      (key, result) ∈ cache.results.entries → Origin cache call key result
  | patched {version : Nat} {mutation : Mutation} {old result : CachedResult} :
      call.notified? = some version → (key, old) ∈ cache.results.entries →
        mutation.Leaves version key old result → Origin cache call key result
  /-- The result is new, and neither too large nor older than what it replaces. -/
  | published {snapshot serial : Nat} {ids : List EntityId} :
      call.publication? = some (key, snapshot, ids) → cache.config.enabled = true →
        ids.length ≤ cache.config.maxResultSize →
          (∀ existing ∈ cache.results.find? key, existing.version ≤ snapshot) →
            Origin cache call key (.ofIds key snapshot ids serial)

variable {engine : Engine} {call : CacheCall} {key : QueryKey} {result : CachedResult}

theorem origin_of_mem_publish {cache : ResultCache} {published : QueryKey} {snapshot : Nat}
    {ids : List EntityId} (publishes : call.publication? = some (published, snapshot, ids))
    (member : (key, result) ∈ (cache.publish published snapshot ids).2.1.results.entries) :
    Origin cache call key result := by
  rcases ResultCache.mem_of_mem_offer member with kept | ⟨same, enabled, fits, _, unrivalled⟩
  · exact .kept kept
  · cases same
    exact .published publishes enabled fits unrivalled

theorem origin_of_mem (member : (key, result) ∈ (call.make engine).cache.results.entries) :
    Origin engine.cache call key result := by
  cases call with
  | lookup other snapshot => exact .kept ((engine.cache.lookup_spec other snapshot).1 _ member)
  | getOrCompute other snapshot outcome =>
      have looked := (engine.cache.lookup_spec other snapshot).1
      rcases make_getOrCompute engine other snapshot outcome with same | ⟨ids, rfl, same⟩
      · rw [same] at member
        exact .kept (looked _ member)
      · rw [same] at member
        have found : (make engine (.lookup other snapshot)).cache.results.find? other =
            engine.cache.results.find? other := engine.cache.find?_lookup other snapshot
        have config : (make engine (.lookup other snapshot)).cache.config = engine.cache.config :=
          (engine.cache.respects_lookup other snapshot).config
        have publishes : publication? (.getOrCompute other snapshot (.ok ids)) =
            some (other, snapshot, ids) := rfl
        -- the look-up moved results, but it neither added one nor changed what is found
        cases origin_of_mem_publish publishes member with
        | kept present => exact .kept (looked _ present)
        | patched notifies => cases notifies
        | published same enabled fits unrivalled =>
            cases same
            rw [found] at unrivalled
            rw [config] at enabled fits
            exact .published publishes enabled fits unrivalled
  | publish other snapshot ids => exact origin_of_mem_publish rfl member
  | notify version mutation =>
      obtain ⟨old, present, _, leaves⟩ := Mutation.mem_of_mem_notify member
      exact .patched rfl present leaves
  | invalidate other => exact .kept (PartitionedCache.mem_of_mem_remove member)
  | invalidateAll => exact absurd member PartitionedCache.notMem_entries_clear
  | reclaimColdest wanted => exact .kept (PartitionedCache.mem_of_mem_reclaim member)

/-- A key that is kept before and after a call has no older result after it. -/
theorem version_le_make {old new : CachedResult} (placed : engine.cache.results.Placed)
    (before : (key, old) ∈ engine.cache.results.entries)
    (after : (key, new) ∈ (call.make engine).cache.results.entries) :
    old.version ≤ new.version := by
  have found : engine.cache.results.find? key = some old := placed.find?_of_mem before
  have unique {other : CachedResult} (member : (key, other) ∈ engine.cache.results.entries) :
      other = old :=
    Option.some.inj ((placed.find?_of_mem member).symm.trans found)
  cases origin_of_mem after with
  | kept member => exact Nat.le_of_eq (congrArg CachedResult.version (unique member).symm)
  | patched _ member leaves =>
      rw [← unique member]
      exact leaves.version_ge
  | published _ _ _ unrivalled => exact unrivalled old found

/-! ## Runs of calls -/

theorem makeAll_concat (engine : Engine) (calls : List CacheCall) (call : CacheCall) :
    makeAll engine (calls ++ [call]) = call.make (makeAll engine calls) :=
  List.foldl_concat ..

theorem makeAll_append (engine : Engine) (calls more : List CacheCall) :
    makeAll engine (calls ++ more) = makeAll (makeAll engine calls) more :=
  List.foldl_append ..

theorem respects_makeAll (engine : Engine) (calls : List CacheCall) :
    engine.cache.Respects (makeAll engine calls).cache := by
  induction calls generalizing engine with
  | nil => exact .refl engine.cache
  | cons call rest inductionHypothesis =>
      exact (respects_make engine call).trans (inductionHypothesis (call.make engine))

theorem latestVersion_makeAll (engine : Engine) (calls : List CacheCall) :
    (makeAll engine calls).cache.latestVersion =
      (calls.filterMap notified?).foldl max engine.cache.latestVersion := by
  induction calls generalizing engine with
  | nil => rfl
  | cons call rest inductionHypothesis =>
      have step := latestVersion_make engine call
      show (makeAll (call.make engine) rest).cache.latestVersion = _
      rw [inductionHypothesis, step]
      cases notified : call.notified? with
      | none =>
          rw [List.filterMap_cons_none notified]
          rfl
      | some version =>
          rw [List.filterMap_cons_some notified]
          rfl

/-- As long as a key stays kept, the version of its result does not decrease. -/
theorem version_le_makeAll {old new : CachedResult} {calls : List CacheCall}
    (placed : engine.cache.results.Placed)
    (stays : ∀ part, part <+: calls →
      ∃ result, (key, result) ∈ (makeAll engine part).cache.results.entries)
    (before : (key, old) ∈ engine.cache.results.entries)
    (after : (key, new) ∈ (makeAll engine calls).cache.results.entries) :
    old.version ≤ new.version := by
  induction calls generalizing engine old with
  | nil =>
      have found := placed.find?_of_mem before
      have same : old = new := Option.some.inj (found.symm.trans (placed.find?_of_mem after))
      exact Nat.le_of_eq (congrArg CachedResult.version same)
  | cons call rest inductionHypothesis =>
      obtain ⟨middle, between⟩ := stays [call] (List.prefix_append [call] rest)
      have step : old.version ≤ middle.version := version_le_make placed before between
      apply Nat.le_trans step
      apply inductionHypothesis ((respects_make engine call).placed placed) _ between after
      intro part first
      exact stays (call :: part) ((List.prefix_cons_inj call).2 first)

/-! ## Kept results -/

/-- A result is kept under its own key.  Its version is that of its computation or a later one, but
none that is still to come. -/
structure Current (latest : Nat) (key : QueryKey) (result : CachedResult) : Prop where
  own : result.key = key
  computed : result.computedAt ≤ result.version
  notNewer : result.version ≤ max result.computedAt latest

/-- A result goes back to a call that published it, with no more identities than the limit. -/
def PublishedBy (engine : Engine) (limit : Nat) (calls : List CacheCall) (key : QueryKey)
    (result : CachedResult) : Prop :=
  ∃ earlier call later ids, calls = earlier ++ call :: later ∧
    call.publication? = some (key, result.computedAt, ids) ∧ ids.length ≤ limit ∧
      (key, .ofIds key result.computedAt ids result.serial) ∈
        (makeAll engine (earlier ++ [call])).cache.results.entries

theorem Current.of_leaves {latest version : Nat} {mutation : Mutation} {old : CachedResult}
    (current : Current latest key old) (leaves : mutation.Leaves version key old result) :
    Current (max latest version) key result where
  own := leaves.key_eq.trans current.own
  computed := by
    rw [leaves.computedAt_eq]
    exact Nat.le_trans current.computed leaves.version_ge
  notNewer := by
    have behind := current.notNewer
    rw [leaves.computedAt_eq]
    cases leaves with
    | untouched | contained => omega
    | merged => exact Nat.le_trans (Nat.le_max_right _ _) (Nat.le_max_right _ _)

theorem every_current_make (every : engine.cache.Every (Current engine.cache.latestVersion)) :
    (call.make engine).cache.Every (Current (call.make engine).cache.latestVersion) := by
  intro key result member
  rw [latestVersion_make]
  cases origin_of_mem member with
  | kept present =>
      obtain ⟨own, computed, notNewer⟩ := every key result present
      refine ⟨own, computed, ?_⟩
      cases call.notified? with
      | none => exact notNewer
      | some version =>
          show result.version ≤ max result.computedAt (max engine.cache.latestVersion version)
          omega
  | patched notifies present leaves =>
      rw [notifies]
      exact (every key _ present).of_leaves leaves
  | published _ _ _ _ => exact ⟨rfl, Nat.le_refl _, Nat.le_max_left _ _⟩

theorem every_current_makeAll (every : engine.cache.Every (Current engine.cache.latestVersion))
    (calls : List CacheCall) :
    (makeAll engine calls).cache.Every (Current (makeAll engine calls).cache.latestVersion) := by
  induction calls generalizing engine with
  | nil => exact every
  | cons call rest inductionHypothesis => exact inductionHypothesis (every_current_make every)

theorem PublishedBy.concat {limit : Nat} {calls : List CacheCall} {old : CachedResult}
    (published : PublishedBy engine limit calls key old) (call : CacheCall)
    (computedAt : result.computedAt = old.computedAt) (serial : result.serial = old.serial) :
    PublishedBy engine limit (calls ++ [call]) key result := by
  obtain ⟨earlier, publisher, later, ids, rfl, publishes, fits, kept⟩ := published
  refine ⟨earlier, publisher, later ++ [call], ids, ?_, ?_, fits, ?_⟩
  · rw [List.append_assoc, List.cons_append]
  · rw [computedAt]
    exact publishes
  · rw [computedAt, serial]
    exact kept

/-- Every kept result goes back to a publication, and only an enabled cache publishes. -/
theorem every_published_makeAll (nothing : engine.cache.Every fun _ _ => False)
    (calls : List CacheCall) :
    (makeAll engine calls).cache.Every fun key result =>
      PublishedBy engine engine.cache.config.maxResultSize calls key result ∧
        engine.cache.config.enabled = true := by
  induction calls using List.reverseRecOn with
  | nil => exact nothing.mono fun key result impossible => impossible.elim
  | append_singleton calls call inductionHypothesis =>
      intro key result member
      have kept := member
      rw [makeAll_concat] at member
      cases origin_of_mem member with
      | kept present =>
          obtain ⟨published, enabled⟩ := inductionHypothesis key result present
          exact ⟨published.concat call rfl rfl, enabled⟩
      | patched _ present leaves =>
          obtain ⟨published, enabled⟩ := inductionHypothesis key _ present
          exact ⟨published.concat call leaves.computedAt_eq leaves.serial_eq, enabled⟩
      | @published snapshot serial ids publishes enabled fits _ =>
          rw [(respects_makeAll engine calls).config] at enabled fits
          exact ⟨⟨calls, call, [], ids, rfl, publishes, fits, kept⟩, enabled⟩

/-! ## The invariant -/

/-- What holds of a cache after a run of calls. -/
structure Invariant (config : CacheConfig) (engine : Engine) (calls : List CacheCall)
    (cache : ResultCache) : Prop where
  /-- The newest version is the greatest that was notified. -/
  latest : cache.latestVersion = (calls.filterMap notified?).foldl max 0
  partitions : cache.results.count = Prime.partitionCount config.cacheSize
  /-- The hash of a key decides where its result is kept. -/
  routed : ∀ index : Fin cache.results.count, ∀ entry ∈ cache.results.partitions[index].entries,
    (route entry.1).toNat % cache.results.count = index
  once : (cache.results.entries.map Prod.fst).Nodup
  current : cache.Every (Current cache.latestVersion)
  published : cache.Every (PublishedBy engine config.maxResultSize calls)
  /-- As long as a key stays kept, the version of its result does not decrease. -/
  ascending : ∀ (more : List CacheCall) (key : QueryKey) (old new : CachedResult),
    (∀ part, part <+: more →
      ∃ result, (key, result) ∈ (makeAll engine (calls ++ part)).cache.results.entries) →
    (key, old) ∈ cache.results.entries →
    (key, new) ∈ (makeAll engine (calls ++ more)).cache.results.entries →
      old.version ≤ new.version
  disabled : config.enabled = false → cache.results.entries = [] ∧ cache.results.attempts = 0

/-- The invariant holds after every run of calls to an empty cache of an accepted configuration. -/
theorem invariant_makeAll {config : CacheConfig} {firstSerial : Nat}
    (accepted : ResultCache.ofConfig config firstSerial = .ok engine.cache)
    (calls : List CacheCall) :
    Invariant config engine calls (makeAll engine calls).cache := by
  have empty := ResultCache.eq_of_ofConfig accepted
  have sameConfig : engine.cache.config = config := by rw [empty]
  have respects := respects_makeAll engine calls
  have placed : (makeAll engine calls).cache.results.Placed := by
    apply respects.placed
    rw [empty]
    exact .ofCapacity config.cacheSize
  have published := every_published_makeAll (ResultCache.every_ofConfig accepted) calls
  rw [sameConfig] at published
  constructor
  case latest =>
    rw [latestVersion_makeAll, empty]
  case partitions =>
    rw [respects.count, empty]
    rfl
  case routed =>
    intro index entry member
    exact placed.indexOf_eq index.isLt member
  case once => exact placed.nodup_keys
  case current => exact every_current_makeAll (ResultCache.every_ofConfig accepted) calls
  case published =>
    intro key result member
    exact (published key result member).1
  case ascending =>
    intro more key old new stays before after
    rw [makeAll_append] at after
    apply version_le_makeAll placed _ before after
    intro part first
    rw [← makeAll_append]
    exact stays part first
  case disabled =>
    intro disabled
    constructor
    · rw [List.eq_nil_iff_forall_not_mem]
      rintro ⟨key, result⟩ member
      have enabled := (published key result member).2
      rw [disabled] at enabled
      cases enabled
    · have uncounted := respects.attempts (sameConfig ▸ disabled)
      have unused : engine.cache.results.attempts = 0 := by rw [empty]; rfl
      rw [unused] at uncounted
      exact Nat.le_zero.1 uncounted

/-- A result of version two is published, patched at version three, and looked up. -/
theorem invariant_makeAll_patched :
    let config : CacheConfig := ⟨64, 10, true⟩
    let engine : Engine := ⟨⟨config, .ofCapacity 64, 0, 0⟩, ⟨[], 0, 0⟩, .empty⟩
    let key := (Query.ofType 1).key
    let calls : List CacheCall :=
      [.getOrCompute key 2 (.ok [⟨1, 1⟩]), .notify 3 (.added ⟨1, 2⟩), .lookup key 3]
    ResultCache.ofConfig config 0 = .ok engine.cache ∧
      (makeAll engine calls).cache.results.entries.map
          (fun entry => (entry.2.computedAt, entry.2.version, entry.2.ids.ids)) =
        [(2, 3, [⟨1, 1⟩, ⟨1, 2⟩])] ∧
      Invariant config engine calls (makeAll engine calls).cache := by
  intro config engine key calls
  have accepted : ResultCache.ofConfig config 0 = .ok engine.cache := rfl
  refine ⟨accepted, ?_, invariant_makeAll accepted calls⟩
  decide +kernel

end CacheCall

end EntityQuery
