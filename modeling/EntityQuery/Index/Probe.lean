import EntityQuery.Index.Cursor

/-!
# Probing a cursor

A probe owns one cursor and asks it ahead: the answer of the last move forward is remembered until
the entry is taken, so that asking twice never skips an entry.  Once the cursor has answered that
there is nothing more, the probe never moves it forward again.

The cursor is closed once, by disposing the probe; every later access is an error.
-/

namespace EntityQuery

/-- A cursor that is probed forwards. -/
structure Probe where
  cursor : Cursor
  held : Bool
  /-- The answer of a move whose entry was not taken yet. -/
  answer : Option Bool
  /-- Whether the cursor has answered that nothing is left. -/
  exhausted : Bool
deriving DecidableEq, Repr

namespace Probe

def ofEntries (entries : List Entry) : Probe := ⟨.ofEntries entries, true, none, false⟩

/-- Whether an entry is there to be taken; at most one move. -/
def hasNext (probe : Probe) : Except QueryError Bool × Probe :=
  if probe.exhausted then (.ok false, probe)
  else
    match probe.answer with
    | some answer => (.ok answer, probe)
    | none =>
        if probe.held then
          match probe.cursor.moveNext with
          | (.error error, cursor) => (.error error, { probe with cursor })
          | (.ok answer, cursor) =>
              (.ok answer, { probe with cursor, answer := some answer, exhausted := !answer })
        else
          (.error .cursorClosed, probe)

def advance (probe : Probe) : Except QueryError (Option Record) × Probe :=
  match probe.hasNext with
  | (.error error, asked) => (.error error, asked)
  | (.ok false, asked) => (.ok none, asked)
  | (.ok true, asked) =>
      let taken := { asked with answer := none }
      if taken.held then (.ok (some taken.cursor.current), taken)
      else (.error .cursorClosed, taken)

/-- Go one entry back and take it. -/
def stepBack (probe : Probe) : Except QueryError (Option Record) × Probe :=
  let forgotten := { probe with answer := none }
  if forgotten.held then
    match forgotten.cursor.movePrevious with
    | (.error error, cursor) => (.error error, { forgotten with cursor })
    | (.ok false, cursor) => (.ok none, { forgotten with cursor })
    | (.ok true, cursor) => (.ok (some cursor.current), { forgotten with cursor })
  else
    (.error .cursorClosed, forgotten)

/-- Close the cursor and answer whether it was still open. -/
def dispose (probe : Probe) : Bool × Probe :=
  if probe.held then (true, { probe with cursor := probe.cursor.close, held := false })
  else (false, probe)

/-- The most entries that can still be taken. -/
def budget (probe : Probe) : Nat :=
  probe.cursor.ahead + (if probe.answer = some true then 1 else 0)

/-- One if an entry was taken, and zero otherwise. -/
def taken : Except QueryError (Option Record) → Nat
  | .ok (some _) => 1
  | _ => 0

theorem budget_hasNext (probe : Probe) : probe.hasNext.2.budget ≤ probe.budget := by
  have moving := probe.cursor.ahead_moveNext
  simp only [hasNext]
  split
  · exact Nat.le_refl _
  · split
    · exact Nat.le_refl _
    · rename_i noAnswer
      split
      · split
        · rename_i moved
          rw [moved] at moving
          simp only [budget, noAnswer, Cursor.found] at *
          omega
        · rename_i answer cursor moved
          rw [moved] at moving
          cases answer <;> simp only [budget, noAnswer, Cursor.found] at * <;> simp at * <;> omega
      · exact Nat.le_refl _

/-- While an entry is there to be taken, the answer is remembered. -/
theorem answer_of_hasNext {probe asked : Probe} (yes : probe.hasNext = (.ok true, asked)) :
    asked.answer = some true := by
  simp only [hasNext] at yes
  split at yes
  · simp at yes
  · split at yes
    · rename_i known
      simp only [Prod.mk.injEq, Except.ok.injEq] at yes
      rw [← yes.2, known, yes.1]
    · split at yes
      · split at yes
        · simp at yes
        · simp only [Prod.mk.injEq, Except.ok.injEq] at yes
          rw [← yes.2, yes.1]
      · simp at yes

/-- Taking an entry uses it up. -/
theorem budget_advance (probe : Probe) :
    probe.advance.2.budget + taken probe.advance.1 ≤ probe.budget := by
  have asking := probe.budget_hasNext
  simp only [advance]
  split
  · rename_i asked
    rw [asked] at asking
    simpa [taken] using asking
  · rename_i asked
    rw [asked] at asking
    simpa [taken] using asking
  · rename_i asked yes
    have remembered := answer_of_hasNext yes
    rw [yes] at asking
    simp only [budget, remembered] at asking
    split <;> simp only [taken, budget] <;> simp at * <;> omega

end Probe

end EntityQuery
