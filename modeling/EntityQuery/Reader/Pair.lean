import EntityQuery.Reader.Feed

/-!
# Two ordered children

The state that unions and intersections share: two children with their lookahead, the identity that
was yielded last, and one identity of lookahead of the pair itself, so that asking for more never
reads twice.  An identity that repeats the one yielded last is left out, so what is yielded is
strictly ascending.
-/

namespace EntityQuery

/-- Two children and what was yielded of them. -/
structure Pair (σ τ : Type) where
  left : Feed σ
  right : Feed τ
  /-- The identity that was yielded last. -/
  emitted : Option EntityId
  /-- What was fetched for a question but not read yet. -/
  pending : Option (Option EntityId)

namespace Pair

variable {σ τ : Type}

def ofStates (left : σ) (right : τ) : Pair σ τ := ⟨.ofState left, .ofState right, none, none⟩

/-- The most identities that the children can still provide. -/
def supply (leftReader : Reader σ) (rightReader : Reader τ) (pair : Pair σ τ) : Nat :=
  pair.left.budget leftReader + pair.right.budget rightReader

def fillLeft (reader : Reader σ) (combination : Combination) (pair : Pair σ τ) :
    Except QueryError Unit × Pair σ τ :=
  let (result, left) := pair.left.fill reader combination .left
  (result, { pair with left })

def fillRight (reader : Reader τ) (combination : Combination) (pair : Pair σ τ) :
    Except QueryError Unit × Pair σ τ :=
  let (result, right) := pair.right.fill reader combination .right
  (result, { pair with right })

def takeLeft (pair : Pair σ τ) : Pair σ τ := { pair with left := pair.left.take }

def takeRight (pair : Pair σ τ) : Pair σ τ := { pair with right := pair.right.take }

/-- Yield an identity, unless it repeats the one yielded last; then nothing is answered. -/
def emitOnce (pair : Pair σ τ) (id : EntityId) : Option Yield × Pair σ τ :=
  if pair.emitted = some id then (none, pair)
  else (some (.ok (some id)), { pair with emitted := some id })

/-! ## Supply -/

theorem supply_fillLeft (leftReader : Reader σ) (rightReader : Reader τ)
    (combination : Combination) (pair : Pair σ τ) :
    (pair.fillLeft leftReader combination).2.supply leftReader rightReader ≤
      pair.supply leftReader rightReader :=
  Nat.add_le_add_right (pair.left.budget_fill leftReader combination .left) _

theorem supply_fillRight (leftReader : Reader σ) (rightReader : Reader τ)
    (combination : Combination) (pair : Pair σ τ) :
    (pair.fillRight rightReader combination).2.supply leftReader rightReader ≤
      pair.supply leftReader rightReader :=
  Nat.add_le_add_left (pair.right.budget_fill rightReader combination .right) _

theorem pending_fillLeft (reader : Reader σ) (combination : Combination) (pair : Pair σ τ) :
    (pair.fillLeft reader combination).2.pending = pair.pending := rfl

theorem pending_fillRight (reader : Reader τ) (combination : Combination) (pair : Pair σ τ) :
    (pair.fillRight reader combination).2.pending = pair.pending := rfl

theorem supply_takeLeft {leftReader : Reader σ} {rightReader : Reader τ} {pair : Pair σ τ}
    {id : EntityId} (available : pair.left.item = some id) :
    pair.takeLeft.supply leftReader rightReader < pair.supply leftReader rightReader :=
  Nat.add_lt_add_right (Feed.budget_take available) _

theorem supply_takeRight {leftReader : Reader σ} {rightReader : Reader τ} {pair : Pair σ τ}
    {id : EntityId} (available : pair.right.item = some id) :
    pair.takeRight.supply leftReader rightReader < pair.supply leftReader rightReader :=
  Nat.add_lt_add_left (Feed.budget_take available) _

theorem supply_takeBoth {leftReader : Reader σ} {rightReader : Reader τ} {pair : Pair σ τ}
    {id : EntityId} (available : pair.left.item = some id) :
    pair.takeLeft.takeRight.supply leftReader rightReader <
      pair.supply leftReader rightReader :=
  Nat.add_lt_add_of_lt_of_le (Feed.budget_take available) (Feed.budget_take_le _ _)

theorem supply_emitOnce (leftReader : Reader σ) (rightReader : Reader τ) (pair : Pair σ τ)
    (id : EntityId) :
    (pair.emitOnce id).2.supply leftReader rightReader = pair.supply leftReader rightReader := by
  simp only [emitOnce]
  split <;> rfl

theorem pending_emitOnce (pair : Pair σ τ) (id : EntityId) :
    (pair.emitOnce id).2.pending = pair.pending := by
  simp only [emitOnce]
  split <;> rfl

/-! ## Rounds

Fetching proceeds in rounds.  A round either answers or leaves less to be read. -/

/-- What a round takes from the supply: one for an identity, or for going on without an answer. -/
def used : Option Yield → Nat
  | none => 1
  | some found => found.count

theorem used_emitOnce (pair : Pair σ τ) (id : EntityId) : used (pair.emitOnce id).1 = 1 := by
  simp only [emitOnce]
  split <;> rfl

/-- One way to combine two children. -/
structure Round (leftReader : Reader σ) (rightReader : Reader τ) where
  /-- One round: an answer, or none where the next round has to go on. -/
  step : Pair σ τ → Option Yield × Pair σ τ
  /-- A round uses the supply. -/
  supply_step : ∀ pair, (step pair).2.supply leftReader rightReader + used (step pair).1 ≤
    pair.supply leftReader rightReader
  /-- A round leaves what is kept for the next reading. -/
  pending_step : ∀ pair, (step pair).2.pending = pair.pending

section Rounds

variable {leftReader : Reader σ} {rightReader : Reader τ}

theorem Round.supply_lt (round : Round leftReader rightReader) {pair after : Pair σ τ}
    (step : round.step pair = (none, after)) :
    after.supply leftReader rightReader < pair.supply leftReader rightReader := by
  have bound := round.supply_step pair
  rw [step] at bound
  exact bound

/-- Go on round after round until one answers. -/
def fetch (round : Round leftReader rightReader) (pair : Pair σ τ) : Yield × Pair σ τ :=
  match _ : round.step pair with
  | (some found, after) => (found, after)
  | (none, after) => after.fetch round
termination_by pair.supply leftReader rightReader
decreasing_by exact round.supply_lt (by assumption)

theorem pending_fetch (round : Round leftReader rightReader) (pair : Pair σ τ) :
    (pair.fetch round).2.pending = pair.pending := by
  induction pair using fetch.induct round with
  | case1 pair found after step =>
      have kept := round.pending_step pair
      rw [fetch, step]
      rwa [step] at kept
  | case2 pair after step inductionHypothesis =>
      have kept := round.pending_step pair
      rw [fetch, step]
      rw [step] at kept
      exact inductionHypothesis.trans kept

theorem supply_fetch (round : Round leftReader rightReader) (pair : Pair σ τ) :
    (pair.fetch round).2.supply leftReader rightReader + (pair.fetch round).1.count ≤
      pair.supply leftReader rightReader := by
  induction pair using fetch.induct round with
  | case1 pair found after step =>
      have bound := round.supply_step pair
      rw [fetch, step]
      rwa [step] at bound
  | case2 pair after step inductionHypothesis =>
      have less := round.supply_lt step
      rw [fetch, step]
      exact Nat.le_trans inductionHypothesis (Nat.le_of_lt less)

end Rounds

/-! ## Reading -/

section Reading

variable {leftReader : Reader σ} {rightReader : Reader τ}

/-- Whether a further identity can be fetched; it is kept for the next reading. -/
def hasNext (round : Round leftReader rightReader) (pair : Pair σ τ) :
    Except QueryError Bool × Pair σ τ :=
  match pair.pending with
  | some pending => (.ok pending.isSome, pair)
  | none =>
      match pair.fetch round with
      | (.error error, fetched) => (.error error, fetched)
      | (.ok pending, fetched) => (.ok pending.isSome, { fetched with pending := some pending })

def next (round : Round leftReader rightReader) (pair : Pair σ τ) : Yield × Pair σ τ :=
  match pair.pending with
  | some pending => (.ok pending, { pair with pending := none })
  | none => pair.fetch round

end Reading

/-- Dispose both children and answer whether either held anything. -/
def dispose (leftReader : Reader σ) (rightReader : Reader τ) (pair : Pair σ τ) :
    Bool × Pair σ τ :=
  let (leftHeld, leftState) := leftReader.dispose pair.left.state
  let (rightHeld, rightState) := rightReader.dispose pair.right.state
  (leftHeld || rightHeld,
    { pair with
      left := { pair.left with state := leftState }
      right := { pair.right with state := rightState }
      pending := none })

def cursors (leftReader : Reader σ) (rightReader : Reader τ) (pair : Pair σ τ) : List Usage :=
  leftReader.cursors pair.left.state ++ rightReader.cursors pair.right.state

/-- One for an identity that is kept for the next reading. -/
def pendingBudget (pair : Pair σ τ) : Nat := if pair.pending.join.isSome then 1 else 0

/-- The most identities that can still be read. -/
def budget (leftReader : Reader σ) (rightReader : Reader τ) (pair : Pair σ τ) : Nat :=
  pair.supply leftReader rightReader + pair.pendingBudget

/-- Reading uses the budget. -/
theorem budget_next {leftReader : Reader σ} {rightReader : Reader τ}
    (round : Round leftReader rightReader) (pair : Pair σ τ) :
    (pair.next round).2.budget leftReader rightReader + (pair.next round).1.count ≤
      pair.budget leftReader rightReader := by
  simp only [next]
  split
  · rename_i pending kept
    simp only [budget, pendingBudget, kept]
    cases pending <;> simp [supply, Yield.count]
  · have used := pair.supply_fetch round
    have kept := pair.pending_fetch round
    simp only [budget, pendingBudget, kept] at *
    omega

end Pair

/-- The reader of two children that are combined by rounds. -/
def pairReader {σ τ : Type} {left : Reader σ} {right : Reader τ} (round : Pair.Round left right) :
    Reader (Pair σ τ) where
  hasNext := Pair.hasNext round
  next := Pair.next round
  last := Reader.noReverse
  dispose := Pair.dispose left right
  cursors := Pair.cursors left right
  budget := Pair.budget left right
  budget_next := Pair.budget_next round

end EntityQuery
