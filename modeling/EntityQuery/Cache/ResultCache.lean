import EntityQuery.Config
import EntityQuery.Cache.Partitioned
import EntityQuery.Cache.Result
import EntityQuery.Journal.Basic
import EntityQuery.Query.Reaction

/-!
# The result cache

Results are kept under the key of their query and follow the store by notifications.

* A result serves a reader only if its version is not above the reader's snapshot.
* A result is published only if its snapshot is not below the newest version that was notified, and
  does not replace one that is newer than itself.
* A notification raises the newest version and lets every kept result react by its key.  Patches may
  come in any order: one that a result contains already is skipped, and one that comes after a newer
  patch drops the result.

Every operation answers the new cache and the journal of what it did.
-/

namespace EntityQuery

structure ResultCache where
  config : CacheConfig
  results : PartitionedCache QueryKey CachedResult
  /-- The newest version that was notified. -/
  latestVersion : Nat
  nextSerial : Nat

/-- What the kept results did about one entity change. -/
structure PatchTally where
  inserted : Nat
  removed : Nat
  outOfOrder : Nat
  invalidated : Nat
deriving DecidableEq, Repr

namespace ResultCache

/-- An empty cache of an accepted configuration, which numbers its results from a serial on. -/
def ofConfig (config : CacheConfig) (firstSerial : Nat) : Except QueryError ResultCache :=
  match config.validate with
  | .error refusal => .error refusal
  | .ok () => .ok ⟨config, .ofCapacity config.cacheSize, 0, firstSerial⟩

/-! ## Reading and publishing -/

/-- Find a result that is valid for a reader at a snapshot. -/
def lookup (cache : ResultCache) (key : QueryKey) (snapshot : Nat) :
    Option CachedResult × ResultCache × Journal :=
  if cache.config.enabled then
    let (found, results) := cache.results.tryGet key
    let counted := { cache with results }
    match found with
    | none => (none, counted, .event (.lookup key.kind .miss))
    | some result =>
        if snapshot < result.version then
          (none, counted, .event (.lookup key.kind .stale)
            ++ .note (.newerThanReader key.canonical result.version snapshot))
        else
          (some result, counted, .event (.lookup key.kind .hit))
  else
    (none, cache, .empty)

/-- Whether a result of a snapshot may be published beside what is kept under its key. -/
def admits (cache : ResultCache) (snapshot : Nat) (existing : Option CachedResult) : Bool :=
  decide (cache.latestVersion ≤ snapshot)
    && existing.all fun result => decide (result.version ≤ snapshot)

/-- Keep a result if the cache is enabled and the result neither too large nor too old. -/
def offer (cache : ResultCache) (materialized : Nat) (result : CachedResult) :
    PublishOutcome × ResultCache × List Note :=
  if !cache.config.enabled then
    (.disabled, cache, [])
  else if cache.config.maxResultSize < materialized then
    (.overCutoff, cache,
      [.overCutoff result.key.canonical materialized cache.config.maxResultSize])
  else
    let (stored, results) :=
      cache.results.insertIf result.key result (cache.admits result.version)
    if stored then
      (.published, { cache with results }, [])
    else
      (.staleSnapshot, { cache with results },
        [.notPublished result.key.canonical result.version cache.latestVersion])

/-- Make a result from computed identities, keep it if it is admissible, and answer it anyway. -/
def publish (cache : ResultCache) (key : QueryKey) (snapshot : Nat) (ids : List EntityId) :
    CachedResult × ResultCache × Journal :=
  let result := CachedResult.ofIds key snapshot ids cache.nextSerial
  let numbered := { cache with nextSerial := cache.nextSerial + 1 }
  let (outcome, offered, notes) := numbered.offer ids.length result
  (result, offered, ⟨[.materialize key.kind ids.length outcome], notes⟩)

/-! ## Notifications -/

/-- Let one kept result take an entity in or drop it, and count what happened. -/
def patchOne (id : EntityId) (appears : Bool) (version : Nat) (result : CachedResult)
    (tally : PatchTally) : Option CachedResult × PatchTally :=
  match result.patch id appears version with
  | (.applied, patched) =>
      (some patched,
        if appears then { tally with inserted := tally.inserted + 1 }
        else { tally with removed := tally.removed + 1 })
  | (.skipped, unchanged) => (some unchanged, tally)
  | (.outOfOrder, _) =>
      (none,
        { tally with
          outOfOrder := tally.outOfOrder + 1
          invalidated := tally.invalidated + 1 })

def react (reaction : QueryKey → Reaction) (id : EntityId) (version : Nat) (key : QueryKey)
    (result : CachedResult) (tally : PatchTally) : Option CachedResult × PatchTally :=
  match reaction key with
  | .ignore => (some result, tally)
  | .insert => patchOne id true version result tally
  | .remove => patchOne id false version result tally
  | .invalidate => (none, { tally with invalidated := tally.invalidated + 1 })

/-- What is told about an entity change. -/
def tallyJournal (id : EntityId) (version : Nat) (tally : PatchTally) : Journal :=
  .noteIf (0 < tally.outOfOrder) (.lateChange id version tally.outOfOrder)
    ++ .ofEvents (List.replicate tally.inserted (.patch .inserted)
      ++ List.replicate tally.removed (.patch .removed)
      ++ List.replicate tally.invalidated (.patch .invalidated))
    ++ .noteIf (0 < tally.invalidated) (.entityChange id version tally.invalidated)

/-- Raise the newest version and let every kept result react to an entity change. -/
def notifyEntity (cache : ResultCache) (reaction : QueryKey → Reaction) (id : EntityId)
    (version : Nat) : ResultCache × Journal :=
  let (results, tally) := cache.results.revise (react reaction id version) ⟨0, 0, 0, 0⟩
  ({ cache with results, latestVersion := max cache.latestVersion version },
    tallyJournal id version tally)

def notifyAdded (cache : ResultCache) (id : EntityId) (version : Nat) : ResultCache × Journal :=
  cache.notifyEntity (QueryKey.addedReaction id) id version

def notifyDeleted (cache : ResultCache) (id : EntityId) (version : Nat) : ResultCache × Journal :=
  cache.notifyEntity (QueryKey.deletedReaction id) id version

/-- A link of some entity of a type changed at a version; every result that may depend on it is
dropped. -/
def notifyLink (cache : ResultCache) (typeId : TypeId) (linkId : LinkId) (version : Nat) :
    ResultCache × Journal :=
  let visit (key : QueryKey) (result : CachedResult) (dropped : Nat) :
      Option CachedResult × Nat :=
    if key.linkReaction typeId linkId = .invalidate then (none, dropped + 1)
    else (some result, dropped)
  let (results, dropped) := cache.results.revise visit 0
  ({ cache with results, latestVersion := max cache.latestVersion version },
    .ofEvents (List.replicate dropped (.patch .invalidated))
      ++ .noteIf (0 < dropped) (.linkChange typeId linkId dropped))

/-! ## Dropping results -/

/-- Drop the result of a key and answer whether there was one. -/
def invalidate (cache : ResultCache) (key : QueryKey) : Bool × ResultCache × Journal :=
  let (removed, results) := cache.results.remove key
  (removed.isSome, { cache with results },
    if removed.isSome then .event (.patch .invalidated) else .empty)

/-- Drop every result and reset the counters of look-ups. -/
def invalidateAll (cache : ResultCache) : ResultCache × Journal :=
  ({ cache with results := cache.results.clear }, .event .cacheClear ++ .note .cleared)

/-- Drop the given number of coldest partitions and answer how many were dropped. -/
def reclaimColdest (cache : ResultCache) (wanted : Nat) : Nat × ResultCache × Journal :=
  let (dropped, results) := cache.results.reclaim wanted
  (dropped, { cache with results },
    if 0 < dropped then .event (.partitionsReclaimed dropped) ++ .note (.reclaimed dropped)
    else .empty)

/-! ## Kept results by serial -/

/-- The result that is kept under a key, if it is the one with this serial. -/
def kept? (cache : ResultCache) (key : QueryKey) (serial : Nat) : Option CachedResult :=
  (cache.results.find? key).filter fun result => result.serial = serial

/-- Put a changed result in the place that it is kept in, under its key and its serial. -/
def replaceBy (changed : CachedResult) (key : QueryKey) (existing : CachedResult) (state : Unit) :
    Option CachedResult × Unit :=
  if key = changed.key ∧ existing.serial = changed.serial then (some changed, state)
  else (some existing, state)

/-- Change a result, if it is kept. -/
def replaceKept (cache : ResultCache) (changed : CachedResult) : ResultCache :=
  { cache with results := (cache.results.revise (replaceBy changed) ()).1 }

def debugText (cache : ResultCache) : String :=
  "EntityIterableCache \x7b config: " ++ cache.config.debugText ++ ", latest_version: "
    ++ toString cache.latestVersion ++ ", .. \x7d"

end ResultCache

end EntityQuery
