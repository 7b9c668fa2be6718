import EntityQuery.Proofs.Cache.Partitions
import EntityQuery.Proofs.Cache.Reached

/-!
# What a request publishes

A request that is not served from the cache computes its identities.  If the computation fails, the
request fails with the same error and the cache keeps what it kept.  Otherwise the request answers a
new result, and the cache keeps the result exactly if it is enabled and the result is neither too
large, nor older than a notification, nor older than what is kept under the key.  Nothing else moves
when the result is refused; when it is kept, it takes the place of its key, and at most one other key
loses its entry, one of the same partition.

The journal tells which of the two it was.
-/

namespace EntityQuery

/-- A result holds exactly the identities that were computed for a key at a snapshot, in order and
each once. -/
structure CachedResult.Materializes (result : CachedResult) (key : QueryKey) (snapshot : Nat)
    (ids : List EntityId) : Prop where
  key_eq : result.key = key
  version_eq : result.version = snapshot
  ascending : result.ids.ids.Pairwise (· < ·)
  members : ∀ id, id ∈ result.ids ↔ id ∈ ids

theorem CachedResult.materializes_ofIds (key : QueryKey) (snapshot : Nat) (ids : List EntityId)
    (serial : Nat) : (ofIds key snapshot ids serial).Materializes key snapshot ids where
  key_eq := rfl
  version_eq := rfl
  ascending := IdSet.ascending _
  members _ := IdSet.mem_ofList

namespace ResultCache

variable {cache : ResultCache} {key : QueryKey} {snapshot : Nat} {ids : List EntityId}

/-- What makes a cache keep the identities that were computed for a key at a snapshot. -/
structure Admissible (cache : ResultCache) (key : QueryKey) (snapshot : Nat)
    (ids : List EntityId) : Prop where
  enabled : cache.config.enabled = true
  fits : ids.length ≤ cache.config.maxResultSize
  notOlder : cache.latestVersion ≤ snapshot
  unrivalled : ∀ resident, (key, resident) ∈ cache.results.entries → resident.version ≤ snapshot

/-- The same results are kept under the same keys. -/
def KeepsAlike (before after : ResultCache) : Prop :=
  ∀ entry, entry ∈ after.results.entries ↔ entry ∈ before.results.entries

theorem KeepsAlike.of_find? {before after : ResultCache} (placed : before.results.Placed)
    (placedAfter : after.results.Placed)
    (alike : ∀ key, after.results.find? key = before.results.find? key) :
    KeepsAlike before after := by
  rintro ⟨key, result⟩
  rw [placedAfter.mem_iff, placed.mem_iff, alike key]

theorem keepsAlike_lookup (placed : cache.results.Placed) (key : QueryKey) (snapshot : Nat) :
    KeepsAlike cache (cache.lookup key snapshot).2.1 := by
  apply KeepsAlike.of_find? placed ((cache.respects_lookup key snapshot).placed placed)
  intro other
  rcases cache.lookup_cases key snapshot with ⟨_, unchanged⟩ | ⟨_, looked⟩
  · rw [unchanged]
  · rw [looked]
    exact cache.results.find?_get key other

/-- Looking a key up does not change what may be published. -/
theorem admissible_lookup (placed : cache.results.Placed) (other : QueryKey) (earlier : Nat) :
    (cache.lookup other earlier).2.1.Admissible key snapshot ids ↔
      cache.Admissible key snapshot ids := by
  have config := (cache.respects_lookup other earlier).config
  have latest := (cache.lookup_spec other earlier).2.1
  have alike := keepsAlike_lookup placed other earlier
  constructor
  · rintro ⟨enabled, fits, notOlder, unrivalled⟩
    rw [config] at enabled fits
    rw [latest] at notOlder
    exact ⟨enabled, fits, notOlder, fun resident kept => unrivalled resident ((alike _).2 kept)⟩
  · rintro ⟨enabled, fits, notOlder, unrivalled⟩
    rw [← config] at enabled fits
    rw [← latest] at notOlder
    exact ⟨enabled, fits, notOlder, fun resident kept => unrivalled resident ((alike _).1 kept)⟩

/-! ## Publishing -/

theorem admissible_iff (placed : cache.results.Placed) :
    cache.Admissible key snapshot ids ↔ cache.config.enabled = true ∧
      ids.length ≤ cache.config.maxResultSize ∧
        cache.admits snapshot (cache.results.find? key) = true := by
  rw [admits_iff]
  constructor
  · rintro ⟨enabled, fits, notOlder, unrivalled⟩
    exact ⟨enabled, fits, notOlder, fun resident found =>
      unrivalled resident (placed.mem_iff.2 found)⟩
  · rintro ⟨enabled, fits, notOlder, unrivalled⟩
    exact ⟨enabled, fits, notOlder, fun resident kept =>
      unrivalled resident (placed.mem_iff.1 kept)⟩

/-- A refused offer is told as such, and every key is found as before. -/
theorem offer_of_refused {materialized : Nat} {result : CachedResult}
    (refused : ¬ (cache.config.enabled = true ∧ materialized ≤ cache.config.maxResultSize ∧
      cache.admits result.version (cache.results.find? result.key) = true)) :
    (cache.offer materialized result).1 ≠ .published ∧
      ∀ other, (cache.offer materialized result).2.1.results.find? other =
        cache.results.find? other := by
  by_cases enabled : cache.config.enabled = true
  · by_cases fits : materialized ≤ cache.config.maxResultSize
    · have notAdmitted : ¬ cache.admits result.version (cache.results.find? result.key) = true :=
        fun admitted => refused ⟨enabled, fits, admitted⟩
      simp only [offer, enabled, Bool.not_true, Bool.false_eq_true, if_false,
        if_neg (Nat.not_lt.2 fits), PartitionedCache.insertIf, if_neg notAdmitted]
      constructor
      · intro published
        cases published
      · intro other
        exact congrArg (Recency.find? other) (cache.results.entriesFor_touch_id result.key other)
    · simp only [offer, enabled, Bool.not_true, Bool.false_eq_true, if_false,
        if_pos (Nat.lt_of_not_le fits)]
      constructor
      · intro published
        cases published
      · exact fun _ => trivial
  · simp only [offer, Bool.eq_false_iff.2 enabled, Bool.not_false, if_true]
    constructor
    · intro published
      cases published
    · exact fun _ => trivial

/-- What a request publishes that computed identities for a key at a snapshot: the result that it
answers, what it tells, and the cache that it leaves. -/
structure Publication (before : ResultCache) (key : QueryKey) (snapshot : Nat)
    (ids : List EntityId) (result : CachedResult) (told : Journal) (after : ResultCache) :
    Prop where
  materializes : result.Materializes key snapshot ids
  resident : (key, result) ∈ after.results.entries ↔ before.Admissible key snapshot ids
  refused : ¬ before.Admissible key snapshot ids → KeepsAlike before after
  /-- A result that is kept is kept alone under its key, and at most one other key of its partition
  loses its entry. -/
  kept : before.Admissible key snapshot ids →
    (∀ resident, (key, resident) ∈ after.results.entries ↔ resident = result) ∧
      ∃ lost : Option QueryKey,
        (∀ other ∈ lost, other ≠ key ∧
          before.results.indexOf other = before.results.indexOf key) ∧
        ∀ other resident, other ≠ key → ((other, resident) ∈ after.results.entries ↔
          (other, resident) ∈ before.results.entries ∧ lost ≠ some other)
  /-- Whoever reads a kept result sees its members. -/
  shown : ∀ other resident, (other, resident) ∈ after.results.entries →
    resident.toSet.1 = resident.ids
  told : ∃ outcome notes, told = ⟨[.materialize key.kind ids.length outcome], notes⟩ ∧
    (outcome = .published ↔ before.Admissible key snapshot ids)

/-- A result that is refused leaves everything that is kept. -/
theorem publication_of_refused (sound : cache.Sound)
    (refused : ¬ cache.Admissible key snapshot ids) :
    Publication cache key snapshot ids (cache.publish key snapshot ids).1
      (cache.publish key snapshot ids).2.2 (cache.publish key snapshot ids).2.1 := by
  let numbered : ResultCache := { cache with nextSerial := cache.nextSerial + 1 }
  let result := CachedResult.ofIds key snapshot ids cache.nextSerial
  have outcome : (numbered.offer ids.length result).1 ≠ .published ∧
      ∀ other, (numbered.offer ids.length result).2.1.results.find? other =
        cache.results.find? other :=
    offer_of_refused fun admitted => refused ((admissible_iff sound.placed).2 admitted)
  have alike : KeepsAlike cache (cache.publish key snapshot ids).2.1 :=
    .of_find? sound.placed ((cache.respects_publish key snapshot ids).placed sound.placed) outcome.2
  constructor
  case materializes => exact CachedResult.materializes_ofIds key snapshot ids cache.nextSerial
  case resident =>
    constructor
    · intro kept
      -- no kept result has the number of the new one
      have numberedBefore := sound.numbered key result ((alike _).1 kept)
      exact absurd numberedBefore (Nat.lt_irrefl _)
    · exact fun admissible => absurd admissible refused
  case refused => exact fun _ => alike
  case kept => exact fun admissible => absurd admissible refused
  case shown => exact fun _ _ kept => (sound.publish key snapshot ids).toSet_eq kept
  case told =>
    refine ⟨_, _, rfl, ?_⟩
    constructor
    · exact fun published => absurd published outcome.1
    · exact fun admissible => absurd admissible refused

/-- A result that is kept takes the place of its key. -/
theorem publication_of_admissible (sound : cache.Sound)
    (admissible : cache.Admissible key snapshot ids) :
    Publication cache key snapshot ids (cache.publish key snapshot ids).1
      (cache.publish key snapshot ids).2.2 (cache.publish key snapshot ids).2.1 := by
  let numbered : ResultCache := { cache with nextSerial := cache.nextSerial + 1 }
  let result := CachedResult.ofIds key snapshot ids cache.nextSerial
  let after : ResultCache := { numbered with results := (cache.results.insert key result).2 }
  have published : cache.publish key snapshot ids =
      (result, after, ⟨[.materialize key.kind ids.length .published], []⟩) := by
    rcases (admissible_iff sound.placed).1 admissible with ⟨enabled, fits, admitted⟩
    have offered : numbered.offer ids.length result = (.published, after, []) :=
      offer_of_admits enabled fits admitted
    rw [publish]
    simp only [numbered, result] at offered
    simp only [offered, result]
  have soundAfter : after.Sound := by
    have publishes := sound.publish key snapshot ids
    rw [published] at publishes
    exact publishes
  have alone (resident : CachedResult) :
      (key, resident) ∈ after.results.entries ↔ resident = result := by
    rw [soundAfter.placed.mem_iff, cache.results.find?_insert_self key result, Option.some.injEq]
    exact eq_comm
  rw [published]
  constructor
  case materializes => exact CachedResult.materializes_ofIds key snapshot ids cache.nextSerial
  case resident =>
    constructor
    · exact fun _ => admissible
    · exact fun _ => (alone result).2 rfl
  case refused => exact fun refused => absurd admissible refused
  case kept =>
    intro _
    rcases PartitionedCache.exists_lost_insert sound.placed key result with
      ⟨lost, among, others⟩
    refine ⟨alone, lost, among, ?_⟩
    intro other resident different
    rw [soundAfter.placed.mem_iff, sound.placed.mem_iff, others other different]
    by_cases same : lost = some other
    · rw [if_pos same]
      constructor
      · intro impossible
        cases impossible
      · exact fun kept => absurd same kept.2
    · rw [if_neg same]
      exact ⟨fun found => ⟨found, same⟩, And.left⟩
  case shown => exact fun _ _ kept => soundAfter.toSet_eq kept
  case told =>
    refine ⟨.published, [], rfl, ?_⟩
    exact ⟨fun _ => admissible, fun _ => rfl⟩

theorem publication_publish (sound : cache.Sound) (key : QueryKey) (snapshot : Nat)
    (ids : List EntityId) :
    Publication cache key snapshot ids (cache.publish key snapshot ids).1
      (cache.publish key snapshot ids).2.2 (cache.publish key snapshot ids).2.1 := by
  by_cases admissible : cache.Admissible key snapshot ids
  · exact publication_of_admissible sound admissible
  · exact publication_of_refused sound admissible

/-- What was published after a look-up was published beside what is kept before it. -/
theorem Publication.of_lookup {other : QueryKey} {earlier : Nat} {result : CachedResult}
    {told : Journal} {after : ResultCache} (placed : cache.results.Placed)
    (publication : Publication (cache.lookup other earlier).2.1 key snapshot ids result told after) :
    Publication cache key snapshot ids result told after := by
  have alike := keepsAlike_lookup placed other earlier
  have admissible : (cache.lookup other earlier).2.1.Admissible key snapshot ids ↔
      cache.Admissible key snapshot ids := admissible_lookup placed other earlier
  constructor
  case materializes => exact publication.materializes
  case resident => exact publication.resident.trans admissible
  case refused =>
    intro refused entry
    exact (publication.refused (mt admissible.1 refused) entry).trans (alike entry)
  case kept =>
    intro admitted
    rcases publication.kept (admissible.2 admitted) with ⟨alone, lost, among, others⟩
    refine ⟨alone, lost, ?_, ?_⟩
    · rcases cache.lookup_cases other earlier with ⟨_, unchanged⟩ | ⟨_, looked⟩
      · rw [unchanged] at among
        exact among
      · rw [looked] at among
        exact among
    · intro another resident different
      rw [others another resident different, alike]
  case shown => exact publication.shown
  case told =>
    rcases publication.told with ⟨outcome, notes, told, published⟩
    exact ⟨outcome, notes, told, published.trans admissible⟩

end ResultCache

/-! ## Requests -/

namespace Action

variable {engine : Engine} {key : QueryKey} {snapshot : Nat} {compute : Action (List EntityId)}

/-- The engine when a request that has looked its key up begins to compute. -/
def begun (engine : Engine) (key : QueryKey) (snapshot : Nat) : Engine :=
  CacheCall.make engine (.lookup key snapshot)

theorem getOrCompute_of_missing (missing : (engine.cache.lookup key snapshot).1 = none) :
    getOrCompute key snapshot compute engine =
      (compute >>= fun ids =>
        onCache (fun cache => cache.publish key snapshot ids) >>= fun result =>
          pure (true, result)) (begun engine key snapshot) := by
  have looking : onCache (fun cache => cache.lookup key snapshot) engine =
      (.ok none, begun engine key snapshot) := by
    rw [← missing]
    rfl
  exact bind_of_ok looking

/-- What a request does that is not served from the cache, once its computation has an outcome. -/
theorem getOrCompute_publication (reachable : engine.cache.Reachable)
    (quiet : ∀ engine, (compute engine).2.cache = engine.cache)
    (missing : (engine.cache.lookup key snapshot).1 = none) :
    (∀ error failed, compute (begun engine key snapshot) = (.error error, failed) →
      getOrCompute key snapshot compute engine = (.error error, failed) ∧
        engine.cache.KeepsAlike failed.cache) ∧
    ∀ ids computed, compute (begun engine key snapshot) = (.ok ids, computed) →
      ∃ result told after,
        getOrCompute key snapshot compute engine =
          (.ok (true, result), { computed with
            cache := after, journal := computed.journal ++ told }) ∧
        engine.cache.Publication key snapshot ids result told after := by
  have sound := reachable.sound
  have unchanged {outcome : Except QueryError (List EntityId)} {computed : Engine}
      (computing : compute (begun engine key snapshot) = (outcome, computed)) :
      computed.cache = (engine.cache.lookup key snapshot).2.1 := by
    have untouched := quiet (begun engine key snapshot)
    rw [computing] at untouched
    exact untouched
  constructor
  · intro error failed computing
    constructor
    · exact (getOrCompute_of_missing missing).trans (bind_of_error computing)
    · rw [unchanged computing]
      exact ResultCache.keepsAlike_lookup sound.placed key snapshot
  · intro ids computed computing
    have looked : (engine.cache.lookup key snapshot).2.1.Sound :=
      sound.make (.lookup key snapshot)
    have publication := (ResultCache.publication_publish looked key snapshot ids).of_lookup
      sound.placed
    rw [← unchanged computing] at publication
    exact ⟨_, _, _, (getOrCompute_of_missing missing).trans (bind_of_ok computing), publication⟩

/-- A request beside a result of another key, with an identity that is computed twice. -/
theorem getOrCompute_publication_repeated :
    let start : Engine := ⟨⟨⟨64, 10, true⟩, .ofCapacity 64, 0, 0⟩, ⟨[], 0, 0⟩, .empty⟩
    let engine := CacheCall.makeAll start
      [.getOrCompute (Query.ofType 1).key 2 (.ok [⟨1, 1⟩]), .notify 3 (.added ⟨1, 2⟩)]
    let key := (Query.ofType 2).key
    let ids : List EntityId := [⟨2, 5⟩, ⟨2, 4⟩, ⟨2, 5⟩]
    engine.cache.Reachable ∧
      (∀ engine, (ofExcept (.ok ids) engine).2.cache = engine.cache) ∧
      (engine.cache.lookup key 3).1 = none ∧
      ∃ result told after,
        getOrCompute key 3 (ofExcept (.ok ids)) engine =
          (.ok (true, result), { begun engine key 3 with
            cache := after, journal := (begun engine key 3).journal ++ told }) ∧
        engine.cache.Publication key 3 ids result told after := by
  intro start engine key ids
  have accepted : ResultCache.ofConfig ⟨64, 10, true⟩ 0 = .ok start.cache := rfl
  have reachable : engine.cache.Reachable := (ResultCache.Reachable.start accepted).makeAll _
  have quiet (engine : Engine) : (ofExcept (.ok ids) engine).2.cache = engine.cache := rfl
  have missing : (engine.cache.lookup key 3).1 = none := by decide +kernel
  refine ⟨reachable, quiet, missing, ?_⟩
  exact (getOrCompute_publication reachable quiet missing).2 ids (begun engine key 3) rfl

end Action

end EntityQuery
