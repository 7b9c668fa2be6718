import EntityQuery.Proofs.Cache.Capacity
import EntityQuery.Proofs.Cache.Reached
import EntityQuery.Proofs.Cache.Retention

/-!
# What a notification reaches

A notification is a visit of all kept results, and what it does to one of them depends on nothing
but its key and the result itself: not on the other results, and not on what was counted before.  So
every result that is kept is reached once, and the events of a notification are those of the results
that it patched or dropped, one for each.

With that, visits are settled for every cache that operations lead to and for every result cache that
can be reached.
-/

namespace EntityQuery

namespace Mutation

/-- What a patch leaves of one result, and what is counted for it. -/
def merge (id : EntityId) (appears : Bool) (version : Nat) (result : CachedResult) :
    Option CachedResult × Option PatchKind :=
  match result.patch id appears version with
  | (.applied, patched) => (some patched, some (if appears then .inserted else .removed))
  | (.skipped, unchanged) => (some unchanged, none)
  | (.outOfOrder, _) => (none, some .invalidated)

/-- What a reaction leaves of one result, and what is counted for it. -/
def effect (id : EntityId) (version : Nat) (result : CachedResult) :
    Reaction → Option CachedResult × Option PatchKind
  | .ignore => (some result, none)
  | .insert => merge id true version result
  | .remove => merge id false version result
  | .invalidate => (none, some .invalidated)

/-- What a notification leaves of one kept result, whatever else is kept. -/
def reach (version : Nat) (key : QueryKey) (result : CachedResult) :
    Mutation → Option CachedResult × Option PatchKind
  | .added id => effect id version result (key.addedReaction id)
  | .removed id => effect id version result (key.deletedReaction id)
  | .relinked typeId linkId =>
      if key.linkReaction typeId linkId = .invalidate then (none, some .invalidated)
      else (some result, none)

/-- The events that tell how many results were patched or dropped. -/
def patchEvents (count : PatchKind → Nat) : List Event :=
  [.inserted, .removed, .invalidated].flatMap fun kind => List.replicate (count kind) (.patch kind)

/-- Every kept result was reached by itself, and told of once. -/
structure Notified (before : ResultCache) (version : Nat) (mutation : Mutation)
    (after : ResultCache) (journal : Journal) : Prop where
  different : (before.results.entries.map Prod.fst).Nodup
  results : after.results = before.results.mapContent (List.filterMap fun entry =>
    (mutation.reach version entry.1 entry.2).1.map fun result => (entry.1, result))
  told : journal.events = patchEvents fun kind =>
    before.results.entries.countP fun entry =>
      (mutation.reach version entry.1 entry.2).2 = some kind

variable {before after : ResultCache} {journal : Journal} {version : Nat} {mutation : Mutation}

/-- A visit reaches every result by itself if its answers do not depend on what it counted. -/
theorem notified_of_visit {σ : Type}
    (visit : QueryKey → CachedResult → σ → Option CachedResult × σ) (start : σ)
    (count : σ → PatchKind → Nat) (placed : before.results.Placed)
    (fresh : ∀ kind, count start kind = 0)
    (answers : ∀ key result state,
      (visit key result state).1 = (mutation.reach version key result).1)
    (counts : ∀ key result state kind, count (visit key result state).2 kind =
      count state kind + if (mutation.reach version key result).2 = some kind then 1 else 0)
    (visited : after.results = (before.results.revise visit start).1)
    (told : journal.events = patchEvents (count (before.results.revise visit start).2)) :
    Notified before version mutation after journal := by
  constructor
  case different => exact placed.nodup_keys
  case results =>
    rw [visited, placed.revise_eq]
    refine congrArg (fun change => before.results.mapContent (List.filterMap change)) ?_
    funext entry
    rw [Recency.left?, answers]
  case told =>
    rw [told, placed.revise_eq]
    refine congrArg patchEvents (funext fun kind => ?_)
    have step (entry : QueryKey × CachedResult) (state : σ) :
        count (visit entry.1 entry.2 state).2 kind = count state kind +
          if decide ((mutation.reach version entry.1 entry.2).2 = some kind) then 1 else 0 := by
      rw [counts]
      simp only [decide_eq_true_eq]
    have counted := Recency.measure_stateAfter visit (fun state => count state kind) step
      before.results.entries start
    exact counted.trans (by rw [fresh, Nat.zero_add])

/-- What was counted of one kind. -/
def tallied (tally : PatchTally) : PatchKind → Nat
  | .inserted => tally.inserted
  | .removed => tally.removed
  | .invalidated => tally.invalidated

theorem patchOne_spec (id : EntityId) (appears : Bool) (version : Nat) (result : CachedResult)
    (tally : PatchTally) :
    (ResultCache.patchOne id appears version result tally).1 =
        (merge id appears version result).1 ∧
      ∀ kind, tallied (ResultCache.patchOne id appears version result tally).2 kind =
        tallied tally kind + if (merge id appears version result).2 = some kind then 1 else 0 := by
  rw [ResultCache.patchOne, merge]
  rcases result.patch id appears version with ⟨outcome, patched⟩
  cases outcome with
  | applied => cases appears <;> exact ⟨rfl, fun kind => by cases kind <;> rfl⟩
  | skipped => exact ⟨rfl, fun kind => rfl⟩
  | outOfOrder => exact ⟨rfl, fun kind => by cases kind <;> rfl⟩

/-- The answer of a reaction does not depend on what was counted before. -/
theorem react_spec (reacts : QueryKey → Reaction) (id : EntityId) (version : Nat)
    (key : QueryKey) (result : CachedResult) (tally : PatchTally) :
    (ResultCache.react reacts id version key result tally).1 =
        (effect id version result (reacts key)).1 ∧
      ∀ kind, tallied (ResultCache.react reacts id version key result tally).2 kind =
        tallied tally kind +
          if (effect id version result (reacts key)).2 = some kind then 1 else 0 := by
  rw [ResultCache.react]
  cases reacts key with
  | ignore => exact ⟨rfl, fun kind => rfl⟩
  | insert => exact patchOne_spec id true version result tally
  | remove => exact patchOne_spec id false version result tally
  | invalidate => exact ⟨rfl, fun kind => by cases kind <;> rfl⟩

theorem events_noteIf (condition : Bool) (note : Note) :
    (Journal.noteIf condition note).events = [] := by
  cases condition <;> rfl

theorem events_tallyJournal (id : EntityId) (version : Nat) (tally : PatchTally) :
    (ResultCache.tallyJournal id version tally).events = patchEvents (tallied tally) := by
  show (Journal.noteIf _ _).events ++ _ ++ (Journal.noteIf _ _).events = _
  rw [events_noteIf, events_noteIf]
  simp [Journal.ofEvents, patchEvents, tallied]

theorem events_dropped (dropped : Nat) (condition : Bool) (note : Note) :
    (Journal.ofEvents (List.replicate dropped (.patch .invalidated)) ++
        Journal.noteIf condition note).events =
      patchEvents fun kind => if kind = .invalidated then dropped else 0 := by
  show List.replicate dropped (.patch .invalidated) ++ (Journal.noteIf condition note).events = _
  rw [events_noteIf]
  simp [patchEvents]

theorem notified_notifyEntity {reacts : QueryKey → Reaction} {id : EntityId}
    (placed : before.results.Placed)
    (reaches : ∀ key result,
      mutation.reach version key result = effect id version result (reacts key)) :
    Notified before version mutation (before.notifyEntity reacts id version).1
      (before.notifyEntity reacts id version).2 := by
  refine notified_of_visit (ResultCache.react reacts id version) ⟨0, 0, 0, 0⟩ tallied placed
    ?_ ?_ ?_ rfl (events_tallyJournal id version _)
  · intro kind
    cases kind <;> rfl
  · intro key result tally
    rw [reaches]
    exact (react_spec reacts id version key result tally).1
  · intro key result tally kind
    rw [reaches]
    exact (react_spec reacts id version key result tally).2 kind

theorem notified_notify (placed : before.results.Placed) (version : Nat) (mutation : Mutation) :
    Notified before version mutation (mutation.notify before version).1
      (mutation.notify before version).2 := by
  cases mutation with
  | added id => exact notified_notifyEntity placed fun _ _ => rfl
  | removed id => exact notified_notifyEntity placed fun _ _ => rfl
  | relinked typeId linkId =>
      let visit (key : QueryKey) (result : CachedResult) (dropped : Nat) :
          Option CachedResult × Nat :=
        if key.linkReaction typeId linkId = .invalidate then (none, dropped + 1)
        else (some result, dropped)
      let count (dropped : Nat) (kind : PatchKind) : Nat :=
        if kind = .invalidated then dropped else 0
      refine notified_of_visit visit 0 count placed ?_ ?_ ?_ rfl ?_
      · intro kind
        exact ite_self 0
      · intro key result dropped
        simp only [visit, reach]
        split <;> rfl
      · intro key result dropped kind
        simp only [visit, reach]
        split
        · cases kind <;> rfl
        · cases kind <;> rfl
      · exact events_dropped _ _ _

end Mutation

/--
Visits are exact, in every cache that operations lead to and in every result cache that can be
reached.  What they leave is the old cache with some entries taken out of their partitions, and some
patched; so what is evicted and reclaimed next is what a filter of the old cache would evict and
reclaim.  A notification is such a visit: it reaches every kept result once, and by itself.
-/
theorem visits_exact {κ ν : Type} [DecidableEq κ] [Routed κ] (capacity : Nat)
    (operations : List (PartitionedCache.Operation κ ν)) :
    ((PartitionedCache.ofCapacity capacity : PartitionedCache κ ν).performAll
        operations).VisitsOnce ∧
      ∀ cache : ResultCache, cache.Reachable → cache.results.VisitsOnce ∧
        ∀ (version : Nat) (mutation : Mutation),
          mutation.Notified cache version (mutation.notify cache version).1
            (mutation.notify cache version).2 := by
  constructor
  · have laidOut := PartitionedCache.LaidOut.performAll
      ⟨.ofCapacity capacity, rfl, rfl⟩ operations
    exact laidOut.placed.visitsOnce
  · intro cache reachable
    have placed := reachable.sound.placed
    exact ⟨placed.visitsOnce, Mutation.notified_notify placed⟩

/-- A new entity reaches two results: one takes it in, and one is dropped. -/
theorem visits_exact_two_results :
    let start : Engine := ⟨⟨⟨64, 10, true⟩, .ofCapacity 64, 0, 0⟩, ⟨[], 0, 0⟩, .empty⟩
    let cache := (CacheCall.makeAll start
      [.publish (Query.ofType 1).key 2 [⟨1, 1⟩],
        .publish (Query.linkedTo 1 7 (.ofType 2)).key 2 []]).cache
    let told := (Mutation.added ⟨1, 2⟩).notify cache 3
    cache.Reachable ∧ cache.results.size = 2 ∧
      told.2.events = [.patch .inserted, .patch .invalidated] ∧ told.1.results.size = 1 ∧
        cache.results.VisitsOnce ∧ (Mutation.added ⟨1, 2⟩).Notified cache 3 told.1 told.2 := by
  intro start cache told
  have accepted : ResultCache.ofConfig ⟨64, 10, true⟩ 0 = .ok start.cache := rfl
  have reachable : cache.Reachable := (ResultCache.Reachable.start accepted).makeAll _
  have kept : cache.results.size = 2 := by decide +kernel
  have events : told.2.events = [.patch .inserted, .patch .invalidated] := by decide +kernel
  have left : told.1.results.size = 1 := by decide +kernel
  rcases (visits_exact (κ := UInt8) (ν := Nat) 16 []).2 cache reachable with ⟨once, notified⟩
  exact ⟨reachable, kept, events, left, once, notified 3 (.added ⟨1, 2⟩)⟩

end EntityQuery
