import EntityQuery.Reader.Pair

/-!
# The reader of a union

The ordered merge of two children: the least of their heads is taken from every child that has it.
-/

namespace EntityQuery

namespace Pair

variable {σ τ : Type}

/-- Take the least of the available identities from every child that has it. -/
def takeLeast (pair : Pair σ τ) : Option (EntityId × Pair σ τ) :=
  match pair.left.item, pair.right.item with
  | none, none => none
  | some leftId, none => some (leftId, pair.takeLeft)
  | none, some rightId => some (rightId, pair.takeRight)
  | some leftId, some rightId =>
      if leftId < rightId then some (leftId, pair.takeLeft)
      else if rightId < leftId then some (rightId, pair.takeRight)
      else some (leftId, pair.takeLeft.takeRight)

/-- Make an identity of each child available, left first. -/
def fillBoth (leftReader : Reader σ) (rightReader : Reader τ) (combination : Combination)
    (pair : Pair σ τ) : Except QueryError Unit × Pair σ τ :=
  match pair.fillLeft leftReader combination with
  | (.error error, filled) => (.error error, filled)
  | (.ok (), filled) => filled.fillRight rightReader combination

theorem supply_fillBoth (leftReader : Reader σ) (rightReader : Reader τ)
    (combination : Combination) (pair : Pair σ τ) :
    (pair.fillBoth leftReader rightReader combination).2.supply leftReader rightReader ≤
      pair.supply leftReader rightReader := by
  have leftFilled := pair.supply_fillLeft leftReader rightReader combination
  simp only [fillBoth]
  split
  · rename_i step
    rwa [step] at leftFilled
  · rename_i filled step
    rw [step] at leftFilled
    exact Nat.le_trans (filled.supply_fillRight leftReader rightReader combination) leftFilled

theorem supply_takeLeast (leftReader : Reader σ) (rightReader : Reader τ)
    {pair taken : Pair σ τ} {id : EntityId} (least : pair.takeLeast = some (id, taken)) :
    taken.supply leftReader rightReader < pair.supply leftReader rightReader := by
  simp only [takeLeast] at least
  split at least
  · simp at least
  · rename_i available _
    cases least
    exact supply_takeLeft available
  · rename_i _ available
    cases least
    exact supply_takeRight available
  · rename_i leftAvailable rightAvailable
    split at least
    · cases least
      exact supply_takeLeft leftAvailable
    · split at least
      · cases least
        exact supply_takeRight rightAvailable
      · cases least
        exact supply_takeBoth leftAvailable

theorem pending_fillBoth (leftReader : Reader σ) (rightReader : Reader τ)
    (combination : Combination) (pair : Pair σ τ) :
    (pair.fillBoth leftReader rightReader combination).2.pending = pair.pending := by
  have kept := pair.pending_fillLeft leftReader combination
  simp only [fillBoth]
  split
  · rename_i step
    rwa [step] at kept
  · rename_i filled step
    rw [step] at kept
    exact (filled.pending_fillRight rightReader combination).trans kept

theorem pending_takeLeast {pair taken : Pair σ τ} {id : EntityId}
    (least : pair.takeLeast = some (id, taken)) : taken.pending = pair.pending := by
  simp only [takeLeast] at least
  split at least
  · simp at least
  · cases least; rfl
  · cases least; rfl
  · split at least
    · cases least; rfl
    · split at least <;> cases least <;> rfl

/-- One round of a merge: fill both children and take the least head. -/
def unionStep (leftReader : Reader σ) (rightReader : Reader τ) (pair : Pair σ τ) :
    Option Yield × Pair σ τ :=
  match pair.fillBoth leftReader rightReader .union with
  | (.error error, filled) => (some (.error error), filled)
  | (.ok (), filled) =>
      match filled.takeLeast with
      | none => (some (.ok none), filled)
      | some (id, taken) => taken.emitOnce id

theorem supply_unionStep (leftReader : Reader σ) (rightReader : Reader τ) (pair : Pair σ τ) :
    (pair.unionStep leftReader rightReader).2.supply leftReader rightReader
        + used (pair.unionStep leftReader rightReader).1 ≤
      pair.supply leftReader rightReader := by
  have filling := pair.supply_fillBoth leftReader rightReader .union
  simp only [unionStep]
  split
  · rename_i step
    rwa [step] at filling
  · rename_i filled step
    rw [step] at filling
    split
    · exact filling
    · rename_i id taken least
      have less := supply_takeLeast leftReader rightReader least
      rw [supply_emitOnce, used_emitOnce]
      exact Nat.le_trans less filling

theorem pending_unionStep (leftReader : Reader σ) (rightReader : Reader τ) (pair : Pair σ τ) :
    (pair.unionStep leftReader rightReader).2.pending = pair.pending := by
  have kept := pair.pending_fillBoth leftReader rightReader .union
  simp only [unionStep]
  split
  · rename_i step
    rwa [step] at kept
  · rename_i filled step
    rw [step] at kept
    split
    · exact kept
    · rename_i id taken least
      rw [pending_emitOnce]
      exact (pending_takeLeast least).trans kept

def unionRound (leftReader : Reader σ) (rightReader : Reader τ) :
    Round leftReader rightReader where
  step := unionStep leftReader rightReader
  supply_step := supply_unionStep leftReader rightReader
  pending_step := pending_unionStep leftReader rightReader

end Pair

/-- The reader of the identities that either child yields. -/
def unionReader {σ τ : Type} (left : Reader σ) (right : Reader τ) : Reader (Pair σ τ) :=
  pairReader (Pair.unionRound left right)

end EntityQuery
