import EntityQuery.QueryError

/-!
# Index cursors

A cursor walks the entries of one index in both directions.  It starts before the first entry; a
move past either end leaves it outside the entries, and a move back from outside lands on the last
entry.  The storage engine may fail to read an entry, on every move or only on moves back: landing
on it answers the fault, and the cursor stays there.

A cursor counts its moves and its closings, so that what a query did to the store can be told from
the cursors it opened.
-/

namespace EntityQuery

/-- The key and the value of one index entry. -/
structure Record where
  key : List UInt8
  value : List UInt8
deriving DecidableEq, Repr

/-- One entry of an index. -/
inductive Entry where
  | record (record : Record)
  /-- Reading the entry fails. -/
  | fault (error : QueryError)
  /-- Reading the entry fails when the cursor comes back to it, and only then. -/
  | oneWay (record : Record) (error : QueryError)
deriving DecidableEq, Repr

namespace Entry

/-- What a move forward reads. -/
def read : Entry → Except QueryError Record
  | .record stored | .oneWay stored _ => .ok stored
  | .fault error => .error error

/-- What a move back reads. -/
def readBack : Entry → Except QueryError Record
  | .record stored => .ok stored
  | .fault error | .oneWay _ error => .error error

end Entry

/-- Where a cursor stands. -/
inductive Position where
  | beforeFirst
  | onEntry (index : Nat)
  | afterLast
deriving DecidableEq, Repr

/-- What a cursor was used for: its moves and how many times it was closed. -/
structure Usage where
  steps : Nat
  closings : Nat
deriving DecidableEq, Repr

/-- What several cursors were used for together. -/
def Usage.sum : List Usage → Usage
  | [] => ⟨0, 0⟩
  | usage :: rest => ⟨usage.steps + (sum rest).steps, usage.closings + (sum rest).closings⟩

/-- A cursor over the entries of one index. -/
structure Cursor where
  entries : List Entry
  position : Position
  usage : Usage
deriving DecidableEq, Repr

namespace Cursor

def ofEntries (entries : List Entry) : Cursor := ⟨entries, .beforeFirst, ⟨0, 0⟩⟩

/-- Count one move and arrive at an index, or past the last entry. -/
def arrive (cursor : Cursor) (reading : Entry → Except QueryError Record) (index : Nat) :
    Except QueryError Bool × Cursor :=
  let usage := { cursor.usage with steps := cursor.usage.steps + 1 }
  match cursor.entries[index]? with
  | none => (.ok false, { cursor with position := .afterLast, usage })
  | some entry =>
      ((reading entry).map fun _ => true, { cursor with position := .onEntry index, usage })

/-- Count one move and leave the entries at the given end. -/
def leave (cursor : Cursor) (position : Position) : Except QueryError Bool × Cursor :=
  (.ok false,
    { cursor with
      position
      usage := { cursor.usage with steps := cursor.usage.steps + 1 } })

/-- Go one entry forward and answer whether there is one. -/
def moveNext (cursor : Cursor) : Except QueryError Bool × Cursor :=
  match cursor.position with
  | .beforeFirst => cursor.arrive Entry.read 0
  | .onEntry index => cursor.arrive Entry.read (index + 1)
  | .afterLast => cursor.leave .afterLast

/-- Go one entry back and answer whether there is one. -/
def movePrevious (cursor : Cursor) : Except QueryError Bool × Cursor :=
  match cursor.position with
  | .onEntry (index + 1) => cursor.arrive Entry.readBack index
  | .onEntry 0 => cursor.leave .beforeFirst
  | .beforeFirst | .afterLast =>
      if cursor.entries = [] then cursor.leave .beforeFirst
      else cursor.arrive Entry.readBack (cursor.entries.length - 1)

/-- The record that the cursor stands on; both its parts are empty elsewhere. -/
def current (cursor : Cursor) : Record :=
  match cursor.position with
  | .onEntry index =>
      match cursor.entries[index]? with
      | some (.record record) | some (.oneWay record _) => record
      | _ => ⟨[], []⟩
  | _ => ⟨[], []⟩

def close (cursor : Cursor) : Cursor :=
  { cursor with usage := { cursor.usage with closings := cursor.usage.closings + 1 } }

/-- The number of entries that lie ahead. -/
def ahead (cursor : Cursor) : Nat :=
  match cursor.position with
  | .beforeFirst => cursor.entries.length
  | .onEntry index => cursor.entries.length - (index + 1)
  | .afterLast => 0

/-- One if a move found an entry, and zero otherwise. -/
def found : Except QueryError Bool → Nat
  | .ok true => 1
  | _ => 0

theorem found_le_one (answer : Except QueryError Bool) : found answer ≤ 1 := by
  rcases answer with _ | _ | _ <;> simp [found]

/-- A move forward uses up the entry that it finds. -/
theorem ahead_moveNext (cursor : Cursor) :
    cursor.moveNext.2.ahead + found cursor.moveNext.1 ≤ cursor.ahead := by
  have arriving (index : Nat) (bound : cursor.entries.length - index ≤ cursor.ahead) :
      (cursor.arrive Entry.read index).2.ahead + found (cursor.arrive Entry.read index).1 ≤
        cursor.ahead := by
    simp only [arrive]
    split
    · simp [ahead, found]
    · rename_i entry present
      have inRange := (List.getElem?_eq_some_iff.1 present).1
      have atMostOne := found_le_one (entry.read.map fun _ => true)
      simp only [ahead] at *
      omega
  cases atPosition : cursor.position with
  | beforeFirst =>
      simp only [moveNext, atPosition]
      exact arriving 0 (by simp [ahead, atPosition])
  | onEntry index =>
      simp only [moveNext, atPosition]
      exact arriving (index + 1) (by simp [ahead, atPosition])
  | afterLast =>
      simp only [moveNext, atPosition, leave]
      simp [ahead, found]

end Cursor

end EntityQuery
