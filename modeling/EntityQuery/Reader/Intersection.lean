import EntityQuery.Reader.Pair

/-!
# The reader of an intersection

The child whose head is less passes over it; equal heads are yielded.  As soon as one child has
ended, the other is not asked any more.
-/

namespace EntityQuery

namespace Pair

variable {σ τ : Type}

/-- Make identities available, left first, and stop at the first child that has ended. -/
def fillUntilEnd (leftReader : Reader σ) (rightReader : Reader τ) (combination : Combination)
    (pair : Pair σ τ) : Except QueryError Unit × Pair σ τ :=
  match pair.fillLeft leftReader combination with
  | (.error error, filled) => (.error error, filled)
  | (.ok (), filled) =>
      if filled.left.done then (.ok (), filled)
      else filled.fillRight rightReader combination

theorem supply_fillUntilEnd (leftReader : Reader σ) (rightReader : Reader τ)
    (combination : Combination) (pair : Pair σ τ) :
    (pair.fillUntilEnd leftReader rightReader combination).2.supply leftReader rightReader ≤
      pair.supply leftReader rightReader := by
  have leftFilled := pair.supply_fillLeft leftReader rightReader combination
  simp only [fillUntilEnd]
  split
  · rename_i step
    rwa [step] at leftFilled
  · rename_i filled step
    rw [step] at leftFilled
    split
    · exact leftFilled
    · exact Nat.le_trans (filled.supply_fillRight leftReader rightReader combination) leftFilled

/-- Whether the intersection has ended: one of the children has. -/
def ended (pair : Pair σ τ) : Bool := pair.left.done || pair.right.done

theorem pending_fillUntilEnd (leftReader : Reader σ) (rightReader : Reader τ)
    (combination : Combination) (pair : Pair σ τ) :
    (pair.fillUntilEnd leftReader rightReader combination).2.pending = pair.pending := by
  have kept := pair.pending_fillLeft leftReader combination
  simp only [fillUntilEnd]
  split
  · rename_i step
    rwa [step] at kept
  · rename_i filled step
    rw [step] at kept
    split
    · exact kept
    · exact (filled.pending_fillRight rightReader combination).trans kept

/-- One round of an intersection: fill both children and compare their heads. -/
def intersectionStep (leftReader : Reader σ) (rightReader : Reader τ) (pair : Pair σ τ) :
    Option Yield × Pair σ τ :=
  match pair.fillUntilEnd leftReader rightReader .intersection with
  | (.error error, filled) => (some (.error error), filled)
  | (.ok (), filled) =>
      if filled.ended then (some (.ok none), filled)
      else
        match filled.left.item, filled.right.item with
        | some leftId, some rightId =>
            if leftId < rightId then (none, filled.takeLeft)
            else if rightId < leftId then (none, filled.takeRight)
            else filled.takeLeft.takeRight.emitOnce leftId
        | _, _ => (some (.ok none), filled)

theorem supply_intersectionStep (leftReader : Reader σ) (rightReader : Reader τ)
    (pair : Pair σ τ) :
    (pair.intersectionStep leftReader rightReader).2.supply leftReader rightReader
        + used (pair.intersectionStep leftReader rightReader).1 ≤
      pair.supply leftReader rightReader := by
  have filling := pair.supply_fillUntilEnd leftReader rightReader .intersection
  simp only [intersectionStep]
  split
  · rename_i step
    rwa [step] at filling
  · rename_i filled step
    rw [step] at filling
    split
    · exact filling
    · split
      · rename_i leftId rightId leftItem rightItem
        split
        · exact Nat.le_trans (supply_takeLeft leftItem) filling
        · split
          · exact Nat.le_trans (supply_takeRight rightItem) filling
          · rw [supply_emitOnce, used_emitOnce]
            exact Nat.le_trans (supply_takeBoth leftItem) filling
      · exact filling

theorem pending_intersectionStep (leftReader : Reader σ) (rightReader : Reader τ)
    (pair : Pair σ τ) :
    (pair.intersectionStep leftReader rightReader).2.pending = pair.pending := by
  have kept := pair.pending_fillUntilEnd leftReader rightReader .intersection
  simp only [intersectionStep]
  split
  · rename_i step
    rwa [step] at kept
  · rename_i filled step
    rw [step] at kept
    split
    · exact kept
    · split
      · split
        · exact kept
        · split
          · exact kept
          · rw [pending_emitOnce]
            exact kept
      · exact kept

def intersectionRound (leftReader : Reader σ) (rightReader : Reader τ) :
    Round leftReader rightReader where
  step := intersectionStep leftReader rightReader
  supply_step := supply_intersectionStep leftReader rightReader
  pending_step := pending_intersectionStep leftReader rightReader

end Pair

/-- The reader of the identities that both children yield. -/
def intersectionReader {σ τ : Type} (left : Reader σ) (right : Reader τ) : Reader (Pair σ τ) :=
  pairReader (Pair.intersectionRound left right)

end EntityQuery
