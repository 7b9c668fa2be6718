import EntityQuery.Journal.Event

/-!
# Metrics

Counters over the events of an engine: one set for all operations and one for each kind of query
that was met.  Counters stop at the greatest 64-bit word.  A report lists the kinds met, the busiest
first.
-/

namespace EntityQuery

structure OperationCounters where
  cacheLookups : Nat
  cacheHits : Nat
  cacheStale : Nat
  materializations : Nat
  materializedIds : Nat
  published : Nat
  skippedOverCutoff : Nat
  skippedStaleSnapshot : Nat
  skippedDisabled : Nat
  entityScans : Nat
  linkScans : Nat
  fastCounts : Nat
  patchesInserted : Nat
  patchesRemoved : Nat
  invalidations : Nat
  cacheClears : Nat
  partitionsReclaimed : Nat
deriving DecidableEq, Repr

structure KindCounters where
  lookups : Nat
  hits : Nat
  materializations : Nat
  materializedIds : Nat
deriving DecidableEq, Repr

structure Metrics where
  operations : OperationCounters
  /-- The kinds met so far, in the order in which they were met. -/
  kinds : List (QueryKind × KindCounters)
  /-- The time at which counting began. -/
  since : Nat
deriving DecidableEq, Repr

/-- The counters of one kind with the ratios of a report. -/
structure KindSummary where
  kind : QueryKind
  lookups : Nat
  hits : Nat
  materializations : Nat
  /-- Hits for each look-up. -/
  hitRatio : Float
  /-- Identities for each materialization. -/
  averageIds : Float

namespace Metrics

def zero (since : Nat) : Metrics :=
  ⟨⟨0, 0, 0, 0, 0, 0, 0, 0, 0, 0, 0, 0, 0, 0, 0, 0, 0⟩, [], since⟩

/-- A counter raised by an amount; it stops at the greatest word. -/
def raise (counter amount : Nat) : Nat := min (counter + amount) (UInt64.size - 1)

/-- Change the counters of a kind, which are zero when it is met first. -/
def updateKind (kind : QueryKind) (update : KindCounters → KindCounters) :
    List (QueryKind × KindCounters) → List (QueryKind × KindCounters)
  | [] => [(kind, update ⟨0, 0, 0, 0⟩)]
  | (head, counters) :: rest =>
      if head = kind then (head, update counters) :: rest
      else (head, counters) :: updateKind kind update rest

def countLookup (outcome : LookupOutcome) (counters : OperationCounters) : OperationCounters :=
  let counted := { counters with cacheLookups := raise counters.cacheLookups 1 }
  match outcome with
  | .hit => { counted with cacheHits := raise counters.cacheHits 1 }
  | .stale => { counted with cacheStale := raise counters.cacheStale 1 }
  | .miss => counted

def countMaterialization (ids : Nat) (outcome : PublishOutcome) (counters : OperationCounters) :
    OperationCounters :=
  let counted := { counters with
    materializations := raise counters.materializations 1
    materializedIds := raise counters.materializedIds ids }
  match outcome with
  | .published => { counted with published := raise counters.published 1 }
  | .overCutoff => { counted with skippedOverCutoff := raise counters.skippedOverCutoff 1 }
  | .staleSnapshot => { counted with skippedStaleSnapshot := raise counters.skippedStaleSnapshot 1 }
  | .disabled => { counted with skippedDisabled := raise counters.skippedDisabled 1 }

def countOperation (event : Event) (counters : OperationCounters) : OperationCounters :=
  match event with
  | .lookup _ outcome => countLookup outcome counters
  | .materialize _ ids outcome => countMaterialization ids outcome counters
  | .scan .entities => { counters with entityScans := raise counters.entityScans 1 }
  | .scan .links => { counters with linkScans := raise counters.linkScans 1 }
  | .fastCount => { counters with fastCounts := raise counters.fastCounts 1 }
  | .patch .inserted => { counters with patchesInserted := raise counters.patchesInserted 1 }
  | .patch .removed => { counters with patchesRemoved := raise counters.patchesRemoved 1 }
  | .patch .invalidated => { counters with invalidations := raise counters.invalidations 1 }
  | .cacheClear => { counters with cacheClears := raise counters.cacheClears 1 }
  | .partitionsReclaimed count =>
      { counters with partitionsReclaimed := raise counters.partitionsReclaimed count }

/-- Count one event for the kind of query that it concerns. -/
def countKind (event : Event) (kinds : List (QueryKind × KindCounters)) :
    List (QueryKind × KindCounters) :=
  match event with
  | .lookup kind outcome =>
      updateKind kind (fun counters =>
        { counters with
          lookups := raise counters.lookups 1
          hits := if outcome = .hit then raise counters.hits 1 else counters.hits }) kinds
  | .materialize kind ids _ =>
      updateKind kind (fun counters =>
        { counters with
          materializations := raise counters.materializations 1
          materializedIds := raise counters.materializedIds ids }) kinds
  | _ => kinds

def record (metrics : Metrics) (event : Event) : Metrics :=
  { metrics with
    operations := countOperation event metrics.operations
    kinds := countKind event metrics.kinds }

/-- Count events one after the other. -/
def recordAll (metrics : Metrics) (events : List Event) : Metrics :=
  events.foldl record metrics

/-- A quotient of counters; zero where there is nothing to divide by. -/
def ratio (numerator denominator : Nat) : Float :=
  if denominator = 0 then 0 else Float.ofNat numerator / Float.ofNat denominator

def summarize (entry : QueryKind × KindCounters) : KindSummary :=
  { kind := entry.1
    lookups := entry.2.lookups
    hits := entry.2.hits
    materializations := entry.2.materializations
    hitRatio := ratio entry.2.hits entry.2.lookups
    averageIds := ratio entry.2.materializedIds entry.2.materializations }

/-- Whether a kind is listed before another one: more look-ups first, then by label. -/
def listedBefore (first second : KindSummary) : Bool :=
  second.lookups < first.lookups
    || (first.lookups = second.lookups && first.kind.label ≤ second.kind.label)

/-- The summaries of all kinds met, the busiest first. -/
def summaries (metrics : Metrics) : List KindSummary :=
  (metrics.kinds.map summarize).mergeSort listedBefore

/-- The counters, unless counting began before the start of a window. -/
def within (metrics : Metrics) (windowStart : Option Nat) : Option Metrics :=
  if windowStart.any fun start => decide (metrics.since < start) then none else some metrics

end Metrics

end EntityQuery
