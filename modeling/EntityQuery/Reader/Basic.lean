import EntityQuery.Index.Cursor

/-!
# Readers

A reader is a single-pass, lazy traversal of entity identities.  It is given by what it does to its
state when it is asked for more, read forwards, stepped backwards or disposed, together with the
cursors that it opened.  Readers are combined as values: the reader of a union is built from the
readers of its sides.

Every reader has a budget: an upper bound of the identities it can still yield when it is only read
forwards.  Yielding one uses at least one unit of it, so draining a reader ends.
-/

namespace EntityQuery

/-- The answer of reading one identity: an error, the end, or an identity. -/
abbrev Yield := Except QueryError (Option EntityId)

namespace Yield

/-- One if an identity was yielded, and zero otherwise. -/
def count : Yield → Nat
  | .ok (some _) => 1
  | _ => 0

end Yield

/-- The operations of a reader with states in `σ`. -/
structure Reader (σ : Type) where
  /-- Whether reading forwards yields an identity. -/
  hasNext : σ → Except QueryError Bool × σ
  /-- Read one identity forwards. -/
  next : σ → Yield × σ
  /-- Step one identity backwards; on a fresh reader this is the greatest. -/
  last : σ → Yield × σ
  /-- Release what is held and answer whether anything was. -/
  dispose : σ → Bool × σ
  /-- The cursors that were opened, and what became of them. -/
  cursors : σ → List Usage
  /-- An upper bound of the identities that can still be read. -/
  budget : σ → Nat
  /-- Every identity that is read uses the budget. -/
  budget_next : ∀ state, budget (next state).2 + Yield.count (next state).1 ≤ budget state

namespace Reader

variable {σ : Type}

def noReverse (state : σ) : Yield × σ := (.error .noReverse, state)

theorem budget_lt (reader : Reader σ) {state after : σ} {id : EntityId}
    (step : reader.next state = (.ok (some id), after)) :
    reader.budget after < reader.budget state := by
  have used := reader.budget_next state
  rw [step] at used
  simp only [Yield.count] at used
  omega

def drain (reader : Reader σ) (state : σ) : Except QueryError (List EntityId) × σ :=
  match _ : reader.next state with
  | (.error error, after) => (.error error, after)
  | (.ok none, after) => (.ok [], after)
  | (.ok (some id), after) =>
      let (rest, final) := drain reader after
      (rest.map (id :: ·), final)
termination_by reader.budget state
decreasing_by exact reader.budget_lt (by assumption)

/--
The given number of answers of a walk that stops at the first error.  The end of the reader is
answered by `none`, and so is everything behind an error.
-/
def walk (reader : Reader σ) : Nat → σ → List (Option (Except QueryError EntityId)) × σ
  | 0, state => ([], state)
  | count + 1, state =>
      match reader.next state with
      | (.error error, after) => (some (.error error) :: List.replicate count none, after)
      | (.ok found, after) =>
          let (rest, final) := walk reader count after
          (found.map .ok :: rest, final)

end Reader

end EntityQuery
