import EntityQuery.Query.Kind

/-!
# Metrics events

Everything that the engine counts is announced as an event.  Events carry the kind of the query that
they concern, where there is one.
-/

namespace EntityQuery

inductive LookupOutcome where
  | hit
  | miss
  /-- There is a result, but it is newer than the reader's snapshot. -/
  | stale
deriving DecidableEq, Repr

/-- What became of a computed result. -/
inductive PublishOutcome where
  | published
  /-- The result has more identities than the cache accepts. -/
  | overCutoff
  /-- The store has moved on, or the cache holds a newer result. -/
  | staleSnapshot
  | disabled
deriving DecidableEq, Repr

/-- Which sort of index is walked. -/
inductive ScanKind where
  | entities
  | links
deriving DecidableEq, Repr

/-- What a change did to a cached result. -/
inductive PatchKind where
  | inserted
  | removed
  | invalidated
deriving DecidableEq, Repr

/-- A countable event. -/
inductive Event where
  | lookup (kind : QueryKind) (outcome : LookupOutcome)
  | materialize (kind : QueryKind) (ids : Nat) (outcome : PublishOutcome)
  | scan (kind : ScanKind)
  | fastCount
  | patch (kind : PatchKind)
  | cacheClear
  | partitionsReclaimed (count : Nat)
deriving DecidableEq, Repr

namespace LookupOutcome

def label : LookupOutcome → String
  | .hit => "hit"
  | .miss => "miss"
  | .stale => "stale"

end LookupOutcome

namespace PublishOutcome

def label : PublishOutcome → String
  | .published => "published"
  | .overCutoff => "over_cutoff"
  | .staleSnapshot => "stale_snapshot"
  | .disabled => "disabled"

end PublishOutcome

namespace ScanKind

def label : ScanKind → String
  | .entities => "entities"
  | .links => "links"

end ScanKind

namespace PatchKind

def label : PatchKind → String
  | .inserted => "inserted"
  | .removed => "removed"
  | .invalidated => "invalidated"

end PatchKind

end EntityQuery
