import EntityQuery.Cache.ResultCache
import EntityQuery.Proofs.Cache.Entries
import EntityQuery.Proofs.Cache.Views
import EntityQuery.Proofs.Query.Mutations

/-!
# What holds of all kept results

A property of kept results is followed through the operations of the result cache.  Looking up,
dropping and reclaiming keep it.  Publishing keeps it if the new result has it whenever it is
admitted, and replacing a result if the changed one has it; a notification keeps it if every result
that the notification leaves has it.  The latter is said once by an inversion of what one
notification does to one result.
-/

namespace EntityQuery

/-- A property holds of every kept result with its key. -/
def ResultCache.Every (holds : QueryKey → CachedResult → Prop) (cache : ResultCache) : Prop :=
  ∀ key result, (key, result) ∈ cache.results.entries → holds key result

namespace ResultCache

variable {holds : QueryKey → CachedResult → Prop} {cache : ResultCache} {key : QueryKey}

theorem eq_of_ofConfig {config : CacheConfig} {firstSerial : Nat}
    (accepted : ofConfig config firstSerial = .ok cache) :
    cache = ⟨config, .ofCapacity config.cacheSize, 0, firstSerial⟩ := by
  rw [ofConfig] at accepted
  split at accepted
  · cases accepted
  · exact (Except.ok.inj accepted).symm

theorem every_ofConfig {config : CacheConfig} {firstSerial : Nat}
    (accepted : ofConfig config firstSerial = .ok cache) : cache.Every holds := by
  intro key result member
  rw [eq_of_ofConfig accepted] at member
  exact absurd member (PartitionedCache.notMem_entries_ofCapacity _)

theorem Every.mono {weaker : QueryKey → CachedResult → Prop} (every : cache.Every holds)
    (implies : ∀ key result, holds key result → weaker key result) : cache.Every weaker :=
  fun key result member => implies key result (every key result member)

/-! ## Reading -/

/-- A look-up is one of the partitioned cache, or none at all. -/
theorem lookup_cases (cache : ResultCache) (key : QueryKey) (snapshot : Nat) :
    (cache.config.enabled = false ∧ (cache.lookup key snapshot).2.1 = cache) ∨
      (cache.config.enabled = true ∧ (cache.lookup key snapshot).2.1 =
        { cache with results := (cache.results.tryGet key).2 }) := by
  rw [lookup]
  split
  · rename_i enabled
    refine .inr ⟨enabled, ?_⟩
    rcases looked : cache.results.tryGet key with ⟨found, results⟩
    cases found with
    | none => rfl
    | some result =>
        dsimp only
        split
        · rfl
        · rfl
  · rename_i disabled
    exact .inl ⟨Bool.eq_false_iff.2 disabled, rfl⟩

/-- A look-up forgets nothing but recency, and what it answers is valid for its reader. -/
theorem lookup_spec (cache : ResultCache) (key : QueryKey) (snapshot : Nat) :
    (∀ entry ∈ (cache.lookup key snapshot).2.1.results.entries, entry ∈ cache.results.entries) ∧
      (cache.lookup key snapshot).2.1.latestVersion = cache.latestVersion ∧
        ∀ result ∈ (cache.lookup key snapshot).1,
          (key, result) ∈ cache.results.entries ∧ result.version ≤ snapshot := by
  rw [lookup]
  split
  · rcases looked : cache.results.tryGet key with ⟨found, results⟩
    obtain ⟨present, subset⟩ := PartitionedCache.mem_of_tryGet looked
    cases found with
    | none => exact ⟨subset, rfl, nofun⟩
    | some result =>
        dsimp only
        split
        · exact ⟨subset, rfl, nofun⟩
        · rename_i notNewer
          refine ⟨subset, rfl, ?_⟩
          rintro other ⟨⟩
          exact ⟨present result rfl, Nat.not_lt.1 notNewer⟩
  · exact ⟨fun _ member => member, rfl, nofun⟩

theorem Every.lookup (every : cache.Every holds) (key : QueryKey) (snapshot : Nat) :
    (cache.lookup key snapshot).2.1.Every holds :=
  fun other result member =>
    every other result ((cache.lookup_spec key snapshot).1 (other, result) member)

/-! ## Publishing -/

theorem admits_iff {existing : Option CachedResult} {snapshot : Nat} :
    cache.admits snapshot existing = true ↔
      cache.latestVersion ≤ snapshot ∧ ∀ result ∈ existing, result.version ≤ snapshot := by
  rw [admits, Bool.and_eq_true, decide_eq_true_eq]
  cases existing <;> simp

/-- An offer is refused as such, or is left to the partitioned cache. -/
theorem offer_cases (cache : ResultCache) (materialized : Nat) (result : CachedResult) :
    (cache.offer materialized result).2.1 = cache ∨
      (cache.config.enabled = true ∧ materialized ≤ cache.config.maxResultSize ∧
        (cache.offer materialized result).2.1 =
          { cache with
            results :=
              (cache.results.insertIf result.key result (cache.admits result.version)).2 }) := by
  rw [offer]
  split
  · exact .inl rfl
  · rename_i enabled
    split
    · exact .inl rfl
    · rename_i fits
      refine .inr ⟨by simpa using enabled, Nat.not_lt.1 fits, ?_⟩
      dsimp only
      split
      · rfl
      · rfl

/-- What is kept after an offer was kept before or is the offered result, which is then neither too
large nor older than any notification or than what it replaces. -/
theorem mem_of_mem_offer {materialized : Nat} {result : CachedResult}
    {entry : QueryKey × CachedResult}
    (member : entry ∈ (cache.offer materialized result).2.1.results.entries) :
    entry ∈ cache.results.entries ∨
      (entry = (result.key, result) ∧ cache.config.enabled = true ∧
        materialized ≤ cache.config.maxResultSize ∧ cache.latestVersion ≤ result.version ∧
          ∀ existing ∈ cache.results.find? result.key, existing.version ≤ result.version) := by
  rcases cache.offer_cases materialized result with refused | ⟨enabled, fits, left⟩
  · rw [refused] at member
    exact .inl member
  · rw [left] at member
    refine (PartitionedCache.mem_of_mem_insertIf member).imp_right ?_
    rintro ⟨same, admitted⟩
    exact ⟨same, enabled, fits, admits_iff.1 admitted⟩

theorem latestVersion_offer (cache : ResultCache) (materialized : Nat) (result : CachedResult) :
    (cache.offer materialized result).2.1.latestVersion = cache.latestVersion := by
  rcases cache.offer_cases materialized result with refused | ⟨_, _, left⟩
  · rw [refused]
  · rw [left]

theorem latestVersion_publish (cache : ResultCache) (key : QueryKey) (snapshot : Nat)
    (ids : List EntityId) :
    (cache.publish key snapshot ids).2.1.latestVersion = cache.latestVersion :=
  latestVersion_offer _ _ _

/-- The new result needs the property only if it is not older than any notification. -/
theorem Every.publish (every : cache.Every holds) {snapshot : Nat} {ids : List EntityId}
    (new : cache.latestVersion ≤ snapshot →
      holds key (.ofIds key snapshot ids cache.nextSerial)) :
    (cache.publish key snapshot ids).2.1.Every holds := by
  intro other result member
  rcases mem_of_mem_offer member with kept | ⟨same, _, _, notOlder, _⟩
  · exact every other result kept
  · cases same
    exact new notOlder

/-! ## Replacing -/

/-- In the place of a result there is that result afterwards, or the changed one. -/
theorem replaceBy_cases {changed old left : CachedResult} {state : Unit}
    (visited : (replaceBy changed key old state).1 = some left) :
    left = old ∨ (key = changed.key ∧ left = changed) := by
  rw [replaceBy] at visited
  split at visited
  · rename_i same
    exact .inr ⟨same.1, (Option.some.inj visited).symm⟩
  · exact .inl (Option.some.inj visited).symm

theorem replaceBy_ne_none (changed : CachedResult) (key : QueryKey) (old : CachedResult)
    (state : Unit) : (replaceBy changed key old state).1 ≠ none := by
  rw [replaceBy]
  split <;> exact Option.some_ne_none _

/-- Where a result comes from that is kept after one was replaced. -/
theorem mem_of_mem_replaceKept {changed result : CachedResult}
    (member : (key, result) ∈ (cache.replaceKept changed).results.entries) :
    (key, result) ∈ cache.results.entries ∨ (key = changed.key ∧ result = changed) := by
  obtain ⟨old, _, present, visited⟩ := PartitionedCache.mem_of_mem_revise member
  rcases replaceBy_cases visited with rfl | replaced
  · exact .inl present
  · exact .inr replaced

theorem Every.replaceKept {changed : CachedResult} (every : cache.Every holds)
    (held : holds changed.key changed) : (cache.replaceKept changed).Every holds := by
  intro other result member
  rcases mem_of_mem_replaceKept member with before | ⟨rfl, rfl⟩
  · exact every other result before
  · exact held

/-! ## Dropping -/

theorem Every.invalidate (every : cache.Every holds) (key : QueryKey) :
    (cache.invalidate key).2.1.Every holds :=
  fun other result member => every other result (PartitionedCache.mem_of_mem_remove member)

theorem every_invalidateAll : cache.invalidateAll.1.Every holds :=
  fun _ _ member => absurd member PartitionedCache.notMem_entries_clear

theorem Every.reclaimColdest (every : cache.Every holds) (wanted : Nat) :
    (cache.reclaimColdest wanted).2.1.Every holds :=
  fun other result member => every other result (PartitionedCache.mem_of_mem_reclaim member)

end ResultCache

/-! ## Notifications -/

namespace Mutation

/-- Notify a cache of a mutation that was committed at a version. -/
def notify (cache : ResultCache) (version : Nat) : Mutation → ResultCache × Journal
  | .added id => cache.notifyAdded id version
  | .removed id => cache.notifyDeleted id version
  | .relinked typeId linkId => cache.notifyLink typeId linkId version

/-- What a notification leaves of a kept result. -/
inductive Leaves (mutation : Mutation) (version : Nat) (key : QueryKey) (old : CachedResult) :
    CachedResult → Prop
  | untouched : mutation.patch? key = none → Leaves mutation version key old old
  /-- The result contains the change from the start. -/
  | contained {id : EntityId} {appears : Bool} :
      mutation.patch? key = some (id, appears) → version ≤ old.computedAt →
        Leaves mutation version key old old
  /-- No later change was merged before. -/
  | merged {id : EntityId} {appears : Bool} :
      mutation.patch? key = some (id, appears) → old.computedAt < version →
        old.version ≤ version →
          Leaves mutation version key old
            { (old.setMember id appears).2 with version := version }

variable {mutation : Mutation} {version : Nat} {key : QueryKey} {old result : CachedResult}

namespace Leaves

theorem key_eq (leaves : mutation.Leaves version key old result) : result.key = old.key := by
  cases leaves <;> rfl

theorem serial_eq (leaves : mutation.Leaves version key old result) :
    result.serial = old.serial := by
  cases leaves <;> rfl

/-- A notification leaves no view that is out of date. -/
theorem coherent (leaves : mutation.Leaves version key old result) (before : old.Coherent) :
    result.Coherent := by
  cases leaves with
  | untouched | contained => exact before
  | merged => exact before.setMember _ _

theorem computedAt_eq (leaves : mutation.Leaves version key old result) :
    result.computedAt = old.computedAt := by
  cases leaves <;> rfl

theorem version_ge (leaves : mutation.Leaves version key old result) :
    old.version ≤ result.version := by
  cases leaves with
  | untouched | contained => exact Nat.le_refl _
  | merged _ _ inOrder => exact inOrder

theorem version_le (leaves : mutation.Leaves version key old result)
    (behind : old.version ≤ version) : result.version ≤ version := by
  cases leaves with
  | untouched | contained => exact behind
  | merged => exact Nat.le_refl _

end Leaves

theorem leaves_of_patchOne {id : EntityId} {appears : Bool} {tally : PatchTally}
    (patches : mutation.patch? key = some (id, appears))
    (left : (ResultCache.patchOne id appears version old tally).1 = some result) :
    mutation.Leaves version key old result := by
  rw [ResultCache.patchOne, CachedResult.patch] at left
  by_cases contained : version ≤ old.computedAt
  · rw [if_pos contained] at left
    cases left
    exact .contained patches contained
  · rw [if_neg contained] at left
    by_cases late : version < old.version
    · rw [if_pos late] at left
      cases left
    · rw [if_neg late] at left
      cases left
      exact .merged patches (Nat.not_le.1 contained) (Nat.not_lt.1 late)

/-- What a reaction leaves of a result, for every mutation that patches as the reaction says. -/
theorem leaves_of_react {reacts : QueryKey → Reaction} {id : EntityId} {tally : PatchTally}
    (visited : (ResultCache.react reacts id version key old tally).1 = some result)
    (ignores : reacts key = .ignore → mutation.patch? key = none)
    (inserts : reacts key = .insert → mutation.patch? key = some (id, true))
    (removes : reacts key = .remove → mutation.patch? key = some (id, false)) :
    reacts key ≠ .invalidate ∧ mutation.Leaves version key old result := by
  rw [ResultCache.react] at visited
  cases reaction : reacts key with
  | ignore =>
      rw [reaction] at visited
      cases visited
      exact ⟨nofun, .untouched (ignores reaction)⟩
  | insert =>
      rw [reaction] at visited
      exact ⟨nofun, leaves_of_patchOne (inserts reaction) visited⟩
  | remove =>
      rw [reaction] at visited
      exact ⟨nofun, leaves_of_patchOne (removes reaction) visited⟩
  | invalidate =>
      rw [reaction] at visited
      cases visited

theorem leaves_of_added {id : EntityId} {tally : PatchTally}
    (visited : (ResultCache.react (QueryKey.addedReaction id) id version key old tally).1 =
      some result) :
    key.addedReaction id ≠ .invalidate ∧ (added id).Leaves version key old result := by
  refine leaves_of_react visited ?_ ?_ ?_
  · intro ignores
    simp [patch?, ignores]
  · intro inserts
    simp [patch?, inserts]
  · intro removes
    exact absurd removes (QueryKey.addedReaction_ne_remove id key)

theorem leaves_of_removed {id : EntityId} {tally : PatchTally}
    (visited : (ResultCache.react (QueryKey.deletedReaction id) id version key old tally).1 =
      some result) :
    key.deletedReaction id ≠ .invalidate ∧ (removed id).Leaves version key old result := by
  refine leaves_of_react visited ?_ ?_ ?_
  · intro ignores
    simp [patch?, ignores]
  · intro inserts
    exact absurd inserts (QueryKey.deletedReaction_ne_insert id key)
  · intro removes
    simp [patch?, removes]

/-- What a notification does to one kept result, unless it drops it. -/
theorem mem_of_mem_notify {cache : ResultCache}
    (member : (key, result) ∈ (mutation.notify cache version).1.results.entries) :
    ∃ old, (key, old) ∈ cache.results.entries ∧ mutation.reaction key ≠ .invalidate ∧
      mutation.Leaves version key old result := by
  cases mutation with
  | added id =>
      obtain ⟨old, tally, present, visited⟩ := PartitionedCache.mem_of_mem_revise member
      exact ⟨old, present, leaves_of_added visited⟩
  | removed id =>
      obtain ⟨old, tally, present, visited⟩ := PartitionedCache.mem_of_mem_revise member
      exact ⟨old, present, leaves_of_removed visited⟩
  | relinked typeId linkId =>
      obtain ⟨old, dropped, present, visited⟩ := PartitionedCache.mem_of_mem_revise member
      refine ⟨old, present, ?_⟩
      split at visited
      · cases visited
      · rename_i valid
        cases visited
        exact ⟨valid, .untouched rfl⟩

theorem latestVersion_notify (cache : ResultCache) (version : Nat) (mutation : Mutation) :
    (mutation.notify cache version).1.latestVersion = max cache.latestVersion version := by
  cases mutation <;> rfl

end Mutation

end EntityQuery
