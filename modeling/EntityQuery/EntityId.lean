/-!
# Entity identities

An entity is named by its type and a number that is local to the type.  Identities are ordered by
type first and by local number second; every list of results is ascending in this order.
-/

namespace EntityQuery

/-- The number of an entity type. -/
abbrev TypeId := UInt32

/-- The number of a link name. -/
abbrev LinkId := UInt32

@[ext]
structure EntityId where
  typeId : TypeId
  localId : UInt64
deriving DecidableEq, Repr, Inhabited

namespace EntityId

/-- Ascending by type, then by local number. -/
protected def lt (left right : EntityId) : Prop :=
  left.typeId < right.typeId ∨ (left.typeId = right.typeId ∧ left.localId < right.localId)

instance : LT EntityId := ⟨EntityId.lt⟩

instance : LE EntityId := ⟨fun left right => ¬ right < left⟩

theorem lt_def {left right : EntityId} :
    left < right ↔
      left.typeId < right.typeId ∨
        (left.typeId = right.typeId ∧ left.localId < right.localId) :=
  Iff.rfl

theorem le_def {left right : EntityId} : left ≤ right ↔ ¬ right < left :=
  Iff.rfl

instance (left right : EntityId) : Decidable (left < right) :=
  decidable_of_iff _ lt_def.symm

instance (left right : EntityId) : Decidable (left ≤ right) :=
  decidable_of_iff _ le_def.symm

instance : Ord EntityId where
  compare left right := if left < right then .lt else if left = right then .eq else .gt

/-- The text of an identity: type and local number in decimal, joined by a hyphen. -/
def text (id : EntityId) : String :=
  toString id.typeId.toNat ++ "-" ++ toString id.localId.toNat

theorem lt_irrefl (id : EntityId) : ¬ id < id := by
  intro less
  rcases less with less | ⟨_, less⟩
  · exact UInt32.lt_irrefl _ less
  · exact UInt64.lt_irrefl _ less

theorem lt_trans {first second third : EntityId} (firstLess : first < second)
    (secondLess : second < third) : first < third := by
  simp only [lt_def, UInt32.lt_iff_toNat_lt, UInt64.lt_iff_toNat_lt, ← UInt32.toNat_inj] at *
  omega

theorem le_of_lt {left right : EntityId} (less : left < right) : left ≤ right :=
  fun greater => lt_irrefl left (lt_trans less greater)

theorem le_refl (id : EntityId) : id ≤ id :=
  lt_irrefl id

theorem le_trans {first second third : EntityId} (firstLe : first ≤ second)
    (secondLe : second ≤ third) : first ≤ third := by
  simp only [le_def, lt_def, UInt32.lt_iff_toNat_lt, UInt64.lt_iff_toNat_lt,
    ← UInt32.toNat_inj] at *
  omega

theorem lt_or_eq_or_gt (left right : EntityId) : left < right ∨ left = right ∨ right < left := by
  simp only [lt_def, EntityId.ext_iff, UInt32.lt_iff_toNat_lt, UInt64.lt_iff_toNat_lt,
    ← UInt32.toNat_inj, ← UInt64.toNat_inj]
  omega

theorem eq_of_not_lt {left right : EntityId} (notLess : ¬ left < right)
    (notGreater : ¬ right < left) : left = right := by
  rcases lt_or_eq_or_gt left right with less | same | greater
  · exact absurd less notLess
  · exact same
  · exact absurd greater notGreater

theorem lt_of_not_lt_of_ne {left right : EntityId} (notLess : ¬ right < left)
    (different : right ≠ left) : left < right := by
  rcases lt_or_eq_or_gt left right with less | same | greater
  · exact less
  · exact absurd same.symm different
  · exact absurd greater notLess

end EntityId

end EntityQuery
