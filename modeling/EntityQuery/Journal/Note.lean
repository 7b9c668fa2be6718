import EntityQuery.EntityId

/-!
# Diagnostic notes

The remarks that the engine makes about its decisions.  A note has a message and named fields, all
of them text.
-/

namespace EntityQuery

/-- A diagnostic remark. -/
inductive Note where
  /-- A cached result was not used because it is newer than the reader's snapshot. -/
  | newerThanReader (key : String) (resultVersion snapshotVersion : Nat)
  /-- A result was not kept because of its size. -/
  | overCutoff (key : String) (materialized cutoff : Nat)
  /-- A result was not kept because the store has moved on. -/
  | notPublished (key : String) (snapshotVersion latestVersion : Nat)
  | linkChange (typeId : TypeId) (linkId : LinkId) (removed : Nat)
  /-- A change came after a newer one, and results that had merged that one were dropped. -/
  | lateChange (entity : EntityId) (version outOfOrder : Nat)
  | entityChange (entity : EntityId) (version invalidated : Nat)
  | cleared
  | reclaimed (count : Nat)
  /-- Links of a name that nothing has were to be followed. -/
  | unknownLink (name : String)
deriving DecidableEq, Repr

namespace Note

def message : Note → String
  | .newerThanReader _ _ _ => "cached instance is newer than reader snapshot"
  | .overCutoff _ _ _ => "result exceeds materialization cutoff; serving uncached"
  | .notPublished _ _ _ => "result computed at an older snapshot; not published"
  | .linkChange _ _ _ => "link change invalidated cached instances"
  | .lateChange _ _ _ => "mutation arrived after a newer patch; dropping affected instances"
  | .entityChange _ _ _ => "mutation invalidated cached instances"
  | .cleared => "iterable cache cleared"
  | .reclaimed _ => "reclaimed cold cache partitions"
  | .unknownLink _ => "unknown link name; find_links is empty"

def fields : Note → List (String × String)
  | .newerThanReader key resultVersion snapshotVersion =>
      [("handle", key), ("instance_version", toString resultVersion),
        ("snapshot_version", toString snapshotVersion)]
  | .overCutoff key materialized cutoff =>
      [("handle", key), ("materialized", toString materialized), ("cutoff", toString cutoff)]
  | .notPublished key snapshotVersion latestVersion =>
      [("handle", key), ("snapshot_version", toString snapshotVersion),
        ("latest_version", toString latestVersion)]
  | .linkChange typeId linkId removed =>
      [("type_id", toString typeId.toNat), ("link_id", toString linkId.toNat),
        ("removed", toString removed)]
  | .lateChange entity version outOfOrder =>
      [("entity", entity.text), ("version", toString version),
        ("out_of_order", toString outOfOrder)]
  | .entityChange entity version invalidated =>
      [("entity", entity.text), ("version", toString version),
        ("invalidated", toString invalidated)]
  | .cleared => []
  | .reclaimed count => [("reclaimed", toString count)]
  | .unknownLink name => [("link_name", name)]

end Note

end EntityQuery
