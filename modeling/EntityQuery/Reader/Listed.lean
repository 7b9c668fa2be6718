import EntityQuery.IdSet
import EntityQuery.Reader.Basic

/-!
# Readers of listed identities

Readers without a cursor: the empty reader, the reader of a materialized set, and the reader of a
given script of identities and errors.

The reader of a set stands like a cursor under a probe: asking for more moves it onto the identity
ahead.  Unlike a probe it does not remember that it came to the end, and it goes on if it is stepped
backwards from there.
-/

namespace EntityQuery

/-! ## Nothing -/

/-- The reader that yields nothing. -/
def emptyReader : Reader Unit where
  hasNext state := (.ok false, state)
  next state := (.ok none, state)
  last state := (.ok none, state)
  dispose state := (false, state)
  cursors _ := []
  budget _ := 0
  budget_next _ := by simp [Yield.count]

/-! ## A materialized set -/

/-- Where the reader of a set stands. -/
structure SetWalk where
  /-- The set, until the reader is disposed. -/
  held : Option IdSet
  /-- The rank it stands on: none before the first member, the size after the last. -/
  position : Option Nat
  /-- Whether the member it stands on was only asked for. -/
  probed : Bool
deriving DecidableEq

namespace SetWalk

def ofSet (set : IdSet) : SetWalk := ⟨some set, none, false⟩

/-- The rank ahead of a position, which never passes the size. -/
def ahead (set : IdSet) : Option Nat → Nat
  | none => 0
  | some rank => min (rank + 1) set.size

/-- Stand on the next member, unless the reader stands on one that was only asked for. -/
def stepped (walk : SetWalk) (set : IdSet) : SetWalk :=
  if walk.probed then walk else { walk with position := some (ahead set walk.position) }

def current (walk : SetWalk) (set : IdSet) : Option EntityId :=
  walk.position.bind set.get?

def hasNext (walk : SetWalk) : Except QueryError Bool × SetWalk :=
  match walk.held with
  | none => (.error .snapshotReleased, walk)
  | some set =>
      let probed := { walk.stepped set with probed := true }
      (.ok (probed.current set).isSome, probed)

def next (walk : SetWalk) : Yield × SetWalk :=
  match walk.held with
  | none => (.error .snapshotReleased, { walk with probed := false })
  | some set =>
      let taken := { walk.stepped set with probed := false }
      (.ok (taken.current set), taken)

/-- The rank behind a position; before the first member this is the last. -/
def behind (set : IdSet) (position : Option Nat) : Option Nat :=
  match position with
  | none => if set.size = 0 then none else some (set.size - 1)
  | some rank => if min rank set.size = 0 then none else some (min rank set.size - 1)

def last (walk : SetWalk) : Yield × SetWalk :=
  match walk.held with
  | none => (.error .snapshotReleased, walk)
  | some set =>
      let back := { walk with position := behind set walk.position, probed := false }
      (.ok (back.current set), back)

def dispose (walk : SetWalk) : Bool × SetWalk :=
  (walk.held.isSome, { walk with held := none })

/-- The number of members that can still be read. -/
def budget (walk : SetWalk) : Nat :=
  match walk.held with
  | none => 0
  | some set =>
      match walk.position with
      | none => set.size
      | some rank => if walk.probed then set.size - rank else set.size - (rank + 1)

theorem count_get? (set : IdSet) (rank : Nat) :
    Yield.count (.ok (set.get? rank)) = if rank < set.size then 1 else 0 := by
  by_cases inRange : rank < set.size
  · have present : set.get? rank = some (set.ids.get ⟨rank, inRange⟩) :=
      List.getElem?_eq_getElem inRange
    rw [present, if_pos inRange]
    rfl
  · have absent : set.get? rank = none := List.getElem?_eq_none (Nat.not_lt.1 inRange)
    rw [absent, if_neg inRange]
    rfl

theorem budget_next (walk : SetWalk) :
    walk.next.2.budget + Yield.count walk.next.1 ≤ walk.budget := by
  obtain ⟨held, position, probed⟩ := walk
  cases held with
  | none => simp [next, budget, Yield.count]
  | some set =>
      cases position with
      | none =>
          cases probed with
          | true => simp [next, budget, stepped, current, Yield.count]
          | false =>
              show set.size - (0 + 1) + Yield.count (.ok (set.get? 0)) ≤ set.size
              rw [count_get?]
              split <;> omega
      | some rank =>
          cases probed with
          | true =>
              show set.size - (rank + 1) + Yield.count (.ok (set.get? rank)) ≤ set.size - rank
              rw [count_get?]
              split <;> omega
          | false =>
              show set.size - (min (rank + 1) set.size + 1)
                + Yield.count (.ok (set.get? (min (rank + 1) set.size))) ≤ set.size - (rank + 1)
              rw [count_get?]
              split <;> omega

end SetWalk

/-- The reader of a materialized set. -/
def setReader : Reader SetWalk where
  hasNext := SetWalk.hasNext
  next := SetWalk.next
  last := SetWalk.last
  dispose := SetWalk.dispose
  cursors _ := []
  budget := SetWalk.budget
  budget_next := SetWalk.budget_next

/-! ## A script -/

/-- The reader of a script: each item is an identity or an error, and is read once. -/
def scriptReader : Reader (List (Except QueryError EntityId)) where
  hasNext script := (.ok !script.isEmpty, script)
  next script :=
    match script with
    | [] => (.ok none, [])
    | item :: rest => (item.map some, rest)
  last := Reader.noReverse
  dispose script := (false, script)
  cursors _ := []
  budget := List.length
  budget_next script := by
    cases script with
    | nil => simp [Yield.count]
    | cons item rest => cases item <;> simp [Yield.count, Except.map]

end EntityQuery
