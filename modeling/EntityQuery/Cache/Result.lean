import EntityQuery.IdSet
import EntityQuery.Query.Key

/-!
# Cached results

A cached result is the materialized set of a query together with two versions: the snapshot it was
computed at, which never changes, and the newest change that was patched in since.  A change at or
before the first is already contained; one between the two came too late to be merged.

Holders of a result read its members from a view.  A view is made when it is asked for and is shown
again until the members change.
-/

namespace EntityQuery

structure CachedResult where
  key : QueryKey
  /-- The snapshot it was computed at. -/
  computedAt : Nat
  /-- The version its content is current at. -/
  version : Nat
  ids : IdSet
  /-- The view that was made last, unless the members changed since. -/
  view : Option IdSet
  /-- A number that tells results apart which were made separately. -/
  serial : Nat

inductive PatchOutcome where
  /-- The change was merged. -/
  | applied
  /-- The change was contained from the start. -/
  | skipped
  /-- The change is older than one that was merged before. -/
  | outOfOrder
deriving DecidableEq, Repr

namespace CachedResult

def ofIds (key : QueryKey) (version : Nat) (ids : List EntityId) (serial : Nat) : CachedResult :=
  ⟨key, version, version, .ofList ids, none, serial⟩

def size (result : CachedResult) : Nat := result.ids.size

def isEmpty (result : CachedResult) : Bool := result.ids.isEmpty

def contains (result : CachedResult) (id : EntityId) : Bool := result.ids.contains id

/-- Make an identity a member or none, and answer whether that changed anything.  Only a change gives
the view up. -/
def setMember (result : CachedResult) (id : EntityId) (appears : Bool) : Bool × CachedResult :=
  let changed := result.contains id != appears
  (changed,
    { result with
      ids := if appears then result.ids.insert id else result.ids.erase id
      view := if changed then none else result.view })

theorem mem_setMember {result : CachedResult} {id other : EntityId} {appears : Bool} :
    other ∈ (result.setMember id appears).2.ids ↔
      if other = id then appears = true else other ∈ result.ids := by
  change other ∈ (if appears then result.ids.insert id else result.ids.erase id) ↔ _
  cases appears <;> by_cases same : other = id <;> simp [same]

/-- Insert an identity and answer whether it was absent. -/
def add (result : CachedResult) (id : EntityId) : Bool × CachedResult :=
  result.setMember id true

/-- Remove an identity and answer whether it was present. -/
def remove (result : CachedResult) (id : EntityId) : Bool × CachedResult :=
  result.setMember id false

/-- The members as a set.  It is the view if there is one, and the view afterwards. -/
def toSet (result : CachedResult) : IdSet × CachedResult :=
  match result.view with
  | some view => (view, result)
  | none => (result.ids, { result with view := some result.ids })

/-- Merge one committed change: the entity appears or vanishes at the version. -/
def patch (result : CachedResult) (id : EntityId) (appears : Bool) (version : Nat) :
    PatchOutcome × CachedResult :=
  if version ≤ result.computedAt then (.skipped, result)
  else if version < result.version then (.outOfOrder, result)
  else (.applied, { (result.setMember id appears).2 with version := version })

def debugText (result : CachedResult) : String :=
  "CachedInstance \x7b handle: " ++ result.key.debugText ++ ", computed_at: "
    ++ toString result.computedAt ++ ", version: " ++ toString result.version ++ ", len: "
    ++ toString result.size ++ " \x7d"

end CachedResult

end EntityQuery
