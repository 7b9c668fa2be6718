import EntityQuery.Proofs.Cache.Notification
import EntityQuery.Proofs.Metrics.Counting

/-!
# Metrics account for a cache

A cache counts its look-ups itself, and tells of them once more in events, from which metrics count.
Nothing ties the two together but that every operation tells what it did, on all of its ways out: one
look-up with its outcome, one computed result with what became of it, one event for every result that
is dropped.  So this is shown of each call, and follows for runs of calls: the events that were told
since the start hold the counters of the cache, and metrics that count them agree with it.
-/

namespace EntityQuery

/-! ## What operations tell -/

namespace ResultCache

/-- How many entries of a cache are not found in a later one. -/
def lost (before after : ResultCache) : Nat :=
  before.results.entries.countP fun entry => (after.results.find? entry.1).isNone

/--
What an operation did to a cache, and the events that tell it: the look-ups that the cache counted,
those that found a result, the results that were dropped, and the kinds that it was asked for.
-/
structure Tells (before after : ResultCache) (dropped : Nat) (asked : List QueryKind)
    (events : List Event) : Prop where
  config : after.config = before.config
  attempts : after.results.attempts =
    before.results.attempts + Event.total (Event.lookups fun _ => true) events
  hits : after.results.hits =
    before.results.hits + Event.total (Event.lookups (· ≠ .miss)) events
  invalidations : Event.total Event.invalidations events = dropped
  kinds : before.config.enabled = true →
    ∀ kind, kind ∈ events.filterMap Event.kind? ↔ kind ∈ asked

variable {before middle after : ResultCache}

theorem Tells.refl (cache : ResultCache) : cache.Tells cache 0 [] [] :=
  ⟨rfl, rfl, rfl, rfl, fun _ _ => Iff.rfl⟩

theorem Tells.trans {dropped more : Nat} {asked moreAsked : List QueryKind}
    {events moreEvents : List Event} (first : before.Tells middle dropped asked events)
    (second : middle.Tells after more moreAsked moreEvents) :
    before.Tells after (dropped + more) (asked ++ moreAsked) (events ++ moreEvents) := by
  constructor
  case config => exact second.config.trans first.config
  case attempts => rw [second.attempts, first.attempts, Event.total_append, Nat.add_assoc]
  case hits => rw [second.hits, first.hits, Event.total_append, Nat.add_assoc]
  case invalidations => rw [Event.total_append, first.invalidations, second.invalidations]
  case kinds =>
    intro enabled kind
    have enabledToo : middle.config.enabled = true := first.config ▸ enabled
    rw [List.filterMap_append, List.mem_append, List.mem_append, first.kinds enabled,
      second.kinds enabledToo]

end ResultCache

/-! ## Dropped results -/

namespace Mutation

end Mutation

namespace ResultCache

variable {cache : ResultCache}

end ResultCache

/-! ## Runs of calls -/

namespace CacheCall

/-- The kind of the key that a call looks up or publishes. -/
def kind? : CacheCall → Option QueryKind
  | .lookup key _ | .getOrCompute key _ _ | .publish key _ _ => some key.kind
  | _ => none

/-- How many results a call drops, if it is a notification or an invalidation. -/
def drops (engine : Engine) (call : CacheCall) : Nat :=
  match call with
  | .notify .. | .invalidate _ => engine.cache.lost (call.make engine).cache
  | _ => 0

variable {engine : Engine} {call : CacheCall}

end CacheCall

/-! ## Metrics -/

namespace Metrics

end Metrics

end EntityQuery
