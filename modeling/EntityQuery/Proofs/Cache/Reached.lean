import EntityQuery.Proofs.Cache.Calls
import EntityQuery.Proofs.Cache.Views

/-!
# Caches that can be reached

A cache of an accepted configuration is called, and the results that it keeps are used by those who
hold them, in any order.  In every cache that is reached in this way the results are in their places,
they were numbered in the order in which they were made, and their views show their members.

So a result that is made next can be told from every result that is kept, and the members of a kept
result are those that any of its holders sees.
-/

namespace EntityQuery

namespace ResultCache

/-! ## Numbers of results -/

/-- Every kept result has a number that was given before. -/
def Numbered (cache : ResultCache) : Prop :=
  cache.Every fun _ result => result.serial < cache.nextSerial

variable {cache : ResultCache}

theorem Numbered.lookup (numbered : cache.Numbered) (key : QueryKey) (snapshot : Nat) :
    (cache.lookup key snapshot).2.1.Numbered := by
  have kept := Every.lookup numbered key snapshot
  rcases cache.lookup_cases key snapshot with ⟨_, unchanged⟩ | ⟨_, looked⟩
  · rw [unchanged]
    exact numbered
  · rw [looked] at kept ⊢
    exact kept

/-- The next number goes to the result that is made. -/
theorem Numbered.publish (numbered : cache.Numbered) (key : QueryKey) (snapshot : Nat)
    (ids : List EntityId) : (cache.publish key snapshot ids).2.1.Numbered := by
  have next : (cache.publish key snapshot ids).2.1.nextSerial = cache.nextSerial + 1 := by
    rcases offer_cases { cache with nextSerial := cache.nextSerial + 1 } ids.length
      (.ofIds key snapshot ids cache.nextSerial) with refused | ⟨_, _, offered⟩
    · exact congrArg nextSerial refused
    · exact congrArg nextSerial offered
  intro other result member
  rw [next]
  rcases mem_of_mem_offer member with kept | ⟨same, _⟩
  · exact Nat.lt_succ_of_lt (numbered other result kept)
  · cases same
    exact Nat.lt_succ_self _

theorem Numbered.notify (numbered : cache.Numbered) (version : Nat) (mutation : Mutation) :
    (mutation.notify cache version).1.Numbered := by
  have next : (mutation.notify cache version).1.nextSerial = cache.nextSerial := by
    cases mutation <;> rfl
  intro key result member
  rcases Mutation.mem_of_mem_notify member with ⟨old, present, _, leaves⟩
  rw [next, leaves.serial_eq]
  exact numbered key old present

theorem Numbered.make {engine : Engine} (numbered : engine.cache.Numbered) (call : CacheCall) :
    (call.make engine).cache.Numbered := by
  cases call with
  | lookup key snapshot => exact numbered.lookup key snapshot
  | getOrCompute key snapshot outcome =>
      have looked := numbered.lookup key snapshot
      rcases CacheCall.make_getOrCompute engine key snapshot outcome with same | ⟨ids, _, same⟩
      · rw [same]
        exact looked
      · rw [same]
        exact Numbered.publish looked key snapshot ids
  | publish key snapshot ids => exact numbered.publish key snapshot ids
  | notify version mutation => exact numbered.notify version mutation
  | invalidate key => exact Every.invalidate numbered key
  | invalidateAll => exact every_invalidateAll
  | reclaimColdest wanted => exact Every.reclaimColdest numbered wanted

/-! ## Views of results -/

theorem every_coherent_make {engine : Engine}
    (coherent : engine.cache.Every fun _ result => result.Coherent) (call : CacheCall) :
    (call.make engine).cache.Every fun _ result => result.Coherent := by
  intro key result member
  cases CacheCall.origin_of_mem member with
  | kept present => exact coherent key result present
  | patched _ present leaves => exact leaves.coherent (coherent key _ present)
  | published => exact CachedResult.coherent_ofIds _ _ _ _

/-! ## Calls and uses -/

/-- A cache that calls, and uses of the results that it keeps, can bring about. -/
inductive Reachable : ResultCache → Prop
  | start {config : CacheConfig} {firstSerial : Nat} {cache : ResultCache} :
      ofConfig config firstSerial = .ok cache → Reachable cache
  | called {engine : Engine} (call : CacheCall) :
      Reachable engine.cache → Reachable (call.make engine).cache
  | used {cache : ResultCache} {key : QueryKey} {result : CachedResult}
      (uses : List CachedResult.Use) :
      Reachable cache → (key, result) ∈ cache.results.entries →
        Reachable (cache.replaceKept (result.useAll uses))

theorem Reachable.makeAll {engine : Engine} (reachable : engine.cache.Reachable)
    (calls : List CacheCall) : (CacheCall.makeAll engine calls).cache.Reachable := by
  induction calls generalizing engine with
  | nil => exact reachable
  | cons call rest inductionHypothesis => exact inductionHypothesis (reachable.called call)

/-- What holds of every cache that can be reached. -/
structure Sound (cache : ResultCache) : Prop where
  placed : cache.results.Placed
  numbered : cache.Numbered
  coherent : cache.Every fun _ result => result.Coherent

theorem Sound.make {engine : Engine} (sound : engine.cache.Sound) (call : CacheCall) :
    (call.make engine).cache.Sound where
  placed := (CacheCall.respects_make engine call).placed sound.placed
  numbered := sound.numbered.make call
  coherent := every_coherent_make sound.coherent call

theorem Sound.publish (sound : cache.Sound) (key : QueryKey) (snapshot : Nat)
    (ids : List EntityId) : (cache.publish key snapshot ids).2.1.Sound := by
  let engine : Engine := ⟨cache, ⟨[], 0, 0⟩, .empty⟩
  have made : (CacheCall.make engine (.publish key snapshot ids)).cache.Sound :=
    Sound.make sound _
  exact made

theorem Sound.used {key : QueryKey} {result : CachedResult} (sound : cache.Sound)
    (uses : List CachedResult.Use) (kept : (key, result) ∈ cache.results.entries) :
    (cache.replaceKept (result.useAll uses)).Sound := by
  constructor
  case placed => exact sound.placed.revise _ _
  case numbered =>
    have numbered : (result.useAll uses).serial < cache.nextSerial := by
      rw [result.serial_useAll]
      exact sound.numbered key result kept
    exact Every.replaceKept sound.numbered numbered
  case coherent =>
    exact sound.coherent.replaceKept
      (CachedResult.coherent_useAll (sound.coherent key result kept) uses)

theorem Reachable.sound (reachable : cache.Reachable) : cache.Sound := by
  induction reachable with
  | @start config firstSerial cache accepted =>
      constructor
      case placed =>
        rw [eq_of_ofConfig accepted]
        exact .ofCapacity config.cacheSize
      case numbered => exact every_ofConfig accepted
      case coherent => exact every_ofConfig accepted
  | called call _ inductionHypothesis => exact inductionHypothesis.make call
  | used uses _ kept inductionHypothesis => exact inductionHypothesis.used uses kept

/-- What a holder of a kept result reads are its members. -/
theorem Sound.toSet_eq {key : QueryKey} {result : CachedResult} (sound : cache.Sound)
    (kept : (key, result) ∈ cache.results.entries) : result.toSet.1 = result.ids :=
  (sound.coherent key result kept).toSet_eq

end ResultCache

end EntityQuery
