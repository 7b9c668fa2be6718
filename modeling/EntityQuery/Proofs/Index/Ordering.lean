import Mathlib.Data.List.Forall2
import EntityQuery.Proofs.Reader.Joining

/-!
# Layouts that keep the order

Byte strings of one length are compared as the numbers that they write.  A local number is written
as itself, and a link target as its type and its local number, one behind the other, which is how
identities are compared.  So both layouts keep the order, and both are exact: they read what has the
right length, and nothing else, and reading undoes writing and writing reading.

A link index in which the rows are sorted by their bytes is therefore sorted by sources and targets.
-/

namespace EntityQuery

namespace Bytes

/-- Numbers of two digits are compared by the first digit, then by the second. -/
theorem twoDigits_lt_iff {base high low otherHigh otherLow : Nat} (digit : low < base)
    (otherDigit : otherLow < base) :
    high * base + low < otherHigh * base + otherLow ↔
      high < otherHigh ∨ (high = otherHigh ∧ low < otherLow) := by
  constructor
  · intro less
    rcases Nat.lt_trichotomy high otherHigh with highLess | same | highGreater
    · exact .inl highLess
    · subst same
      exact .inr ⟨rfl, Nat.lt_of_add_lt_add_left less⟩
    · have scaled : (otherHigh + 1) * base ≤ high * base := Nat.mul_le_mul_right base highGreater
      rw [Nat.succ_mul] at scaled
      omega
  · rintro (highLess | ⟨rfl, lowLess⟩)
    · have scaled : (high + 1) * base ≤ otherHigh * base := Nat.mul_le_mul_right base highLess
      rw [Nat.succ_mul] at scaled
      omega
    · exact Nat.add_lt_add_left lowLess _

theorem toNat_append (front back : List UInt8) :
    toNat (front ++ back) = toNat front * 256 ^ back.length + toNat back := by
  induction back using List.reverseRecOn with
  | nil => simp [toNat]
  | append_singleton middle last inductionHypothesis =>
      rw [← List.append_assoc, toNat_concat, toNat_concat, inductionHypothesis,
        List.length_append, List.length_singleton, pow_succ, Nat.add_mul, Nat.mul_assoc,
        Nat.add_assoc]

/-- Byte strings of one length are compared as the numbers that they write. -/
theorem lt_iff_toNat_lt {first second : List UInt8} (sameLength : first.length = second.length) :
    first < second ↔ toNat first < toNat second := by
  induction first generalizing second with
  | nil =>
      rw [List.length_eq_zero_iff.1 sameLength.symm]
      simp [toNat]
  | cons byte rest inductionHypothesis =>
      cases second with
      | nil => cases sameLength
      | cons other others =>
          have restLength : rest.length = others.length := Nat.succ.inj sameLength
          have digit := toNat_lt rest
          rw [restLength] at digit
          have split (byte : UInt8) (rest : List UInt8) :
              toNat (byte :: rest) = byte.toNat * 256 ^ rest.length + toNat rest := by
            rw [← List.singleton_append, toNat_append]
            simp [toNat]
          rw [List.cons_lt_cons_iff, split, split, restLength,
            twoDigits_lt_iff digit (toNat_lt others), inductionHypothesis restLength,
            UInt8.lt_iff_toNat_lt, UInt8.toNat_inj]

end Bytes

namespace Layout

/-! ## Order -/

theorem length_encodeLocalId (localId : UInt64) : (encodeLocalId localId).length = 8 := rfl

theorem length_encodeLinkTarget (target : EntityId) : (encodeLinkTarget target).length = 12 := rfl

theorem encodeLocalId_lt_iff {first second : UInt64} :
    encodeLocalId first < encodeLocalId second ↔ first < second := by
  have sameLength := (length_encodeLocalId first).trans (length_encodeLocalId second).symm
  rw [Bytes.lt_iff_toNat_lt sameLength, encodeLocalId, encodeLocalId, Bytes.toNat_bigEndian64,
    Bytes.toNat_bigEndian64, UInt64.lt_iff_toNat_lt]

theorem encodeLinkTarget_lt_iff {first second : EntityId} :
    encodeLinkTarget first < encodeLinkTarget second ↔ first < second := by
  have sameLength := (length_encodeLinkTarget first).trans (length_encodeLinkTarget second).symm
  have number (target : EntityId) : Bytes.toNat (encodeLinkTarget target) =
      target.typeId.toNat * 256 ^ 8 + target.localId.toNat := by
    rw [encodeLinkTarget, Bytes.toNat_append, Bytes.toNat_bigEndian32, Bytes.toNat_bigEndian64,
      Bytes.length_bigEndian64]
  have digit (target : EntityId) : target.localId.toNat < 256 ^ 8 := target.localId.toNat_lt
  rw [Bytes.lt_iff_toNat_lt sameLength, number, number,
    Bytes.twoDigits_lt_iff (digit first) (digit second), EntityId.lt_def,
    UInt32.lt_iff_toNat_lt, UInt64.lt_iff_toNat_lt, UInt32.toNat_inj]

theorem encodeLocalId_inj {first second : UInt64} :
    encodeLocalId first = encodeLocalId second ↔ first = second :=
  Bytes.bigEndian64_inj

/-! ## Both layouts -/

/-- A layout writes values as byte strings of one length.  Exactly these are read, as the values that
they are written for; any other length is told as damage to the index.  The order of the bytes is the
order of the values. -/
structure Exact {value : Type} [LT value] (name : String) (length : Nat)
    (encode : value → List UInt8) (decode : List UInt8 → Except QueryError value) : Prop where
  reads_iff : ∀ bytes, (∃ read, decode bytes = .ok read) ↔ bytes.length = length
  decode_encode : ∀ written, decode (encode written) = .ok written
  encode_decode : ∀ bytes read, decode bytes = .ok read → encode read = bytes
  refuses : ∀ bytes error, decode bytes = .error error →
    error.failure = ⟨.corruption, .index,
      name ++ " must be " ++ toString length ++ " bytes, found " ++ toString bytes.length, none⟩
  lt_iff : ∀ first second, encode first < encode second ↔ first < second

theorem exact_localId : Exact "entity key" 8 encodeLocalId decodeLocalId where
  reads_iff bytes := by
    rw [decodeLocalId]
    split
    · rename_i length
      exact ⟨fun _ => length, fun _ => ⟨_, rfl⟩⟩
    · rename_i length
      constructor
      · rintro ⟨_, read⟩
        cases read
      · exact fun same => absurd same length
  decode_encode := decodeLocalId_encodeLocalId
  encode_decode _ _ decoded := (eq_encodeLocalId_of_decode decoded).symm
  refuses bytes error refused := by
    rw [decodeLocalId] at refused
    split at refused
    · cases refused
    · cases refused
      rfl
  lt_iff _ _ := encodeLocalId_lt_iff

theorem exact_linkTarget : Exact "link target" 12 encodeLinkTarget decodeLinkTarget where
  reads_iff bytes := by
    constructor
    · rintro ⟨read, decoded⟩
      exact length_of_decodeLinkTarget decoded
    · intro length
      cases decoded : decodeLinkTarget bytes with
      | ok read => exact ⟨read, rfl⟩
      | error error => exact absurd length (error_of_decodeLinkTarget decoded).1
  decode_encode := decodeLinkTarget_encodeLinkTarget
  encode_decode _ _ decoded := (eq_encodeLinkTarget_of_decode decoded).symm
  refuses bytes error refused := by
    rw [(error_of_decodeLinkTarget refused).2]
    rfl
  lt_iff _ _ := encodeLinkTarget_lt_iff

end Layout

/-! ## Link indexes -/

/-- Rows are compared by their key bytes, then by their value bytes. -/
def Record.before (first second : Record) : Prop :=
  first.key < second.key ∨ (first.key = second.key ∧ first.value < second.value)

/-- Edges are compared by their sources, then by their targets. -/
def Edge.before (first second : Edge) : Prop :=
  first.source < second.source ∨ (first.source = second.source ∧ first.target < second.target)

variable {typeId : TypeId}

/-- Rows of one index stand to each other as their edges do. -/
theorem Record.before_iff {first second : Record} {edge other : Edge}
    (decoded : LinkWalk.decodeEdge typeId first = .ok edge)
    (otherDecoded : LinkWalk.decodeEdge typeId second = .ok other) :
    first.before second ↔ edge.before other := by
  rcases LinkWalk.record_of_decodeEdge decoded 0 with ⟨row, ofType⟩
  rcases LinkWalk.record_of_decodeEdge otherDecoded 0 with ⟨otherRow, otherOfType⟩
  cases row
  cases otherRow
  have source_eq_iff : edge.source = other.source ↔ edge.source.localId = other.source.localId := by
    rw [EntityId.ext_iff, ofType, otherOfType]
    exact and_iff_right rfl
  have source_lt_iff : edge.source < other.source ↔ edge.source.localId < other.source.localId := by
    rw [EntityId.lt_def, ofType, otherOfType]
    constructor
    · rintro (less | ⟨_, less⟩)
      · exact absurd less (UInt32.lt_irrefl typeId)
      · exact less
    · exact fun less => .inr ⟨rfl, less⟩
  rw [Record.before, Edge.before, source_eq_iff, source_lt_iff, ← Layout.encodeLocalId_lt_iff,
    ← Layout.encodeLocalId_inj, ← Layout.encodeLinkTarget_lt_iff]
  rfl

theorem pairwise_before_iff {records : List Record} {edges : List Edge}
    (decoded : List.Forall₂ (fun record edge => LinkWalk.decodeEdge typeId record = .ok edge)
      records edges) :
    (records.Pairwise fun first second => ¬ second.before first) ↔
      edges.Pairwise fun first second => ¬ second.before first := by
  rcases List.forall₂_iff_get.1 decoded with ⟨sameLength, each⟩
  have compared {first second : Nat} (firstStored : first < records.length)
      (secondStored : second < records.length) :
      records[second].before records[first] ↔
        edges[second].before edges[first] :=
    Record.before_iff (each second secondStored (sameLength ▸ secondStored))
      (each first firstStored (sameLength ▸ firstStored))
  rw [List.pairwise_iff_getElem, List.pairwise_iff_getElem]
  constructor
  · intro sorted first second firstInRange secondInRange earlier
    have firstStored : first < records.length := sameLength ▸ firstInRange
    have secondStored : second < records.length := sameLength ▸ secondInRange
    rw [← compared firstStored secondStored]
    exact sorted first second firstStored secondStored earlier
  · intro sorted first second firstStored secondStored earlier
    rw [compared firstStored secondStored]
    exact sorted first second (sameLength ▸ firstStored) (sameLength ▸ secondStored) earlier

/--
Both layouts are exact and keep the order.  So the rows of a link index are sorted by their bytes
exactly if its edges are sorted by sources and targets.
-/
theorem layouts_exact :
    Layout.Exact "entity key" 8 Layout.encodeLocalId Layout.decodeLocalId ∧
      Layout.Exact "link target" 12 Layout.encodeLinkTarget Layout.decodeLinkTarget ∧
        ∀ (typeId : TypeId) (records : List Record) (edges : List Edge),
          List.Forall₂ (fun record edge => LinkWalk.decodeEdge typeId record = .ok edge)
              records edges →
            ((records.Pairwise fun first second => ¬ second.before first) ↔
              edges.Pairwise fun first second => ¬ second.before first) :=
  ⟨Layout.exact_localId, Layout.exact_linkTarget, fun _ _ _ => pairwise_before_iff⟩

/-- Sources on both sides of a byte limit, the second with parallel edges. -/
theorem layouts_exact_byteLimit :
    let records : List Record :=
      [⟨[0, 0, 0, 0, 0, 0, 0, 255], [0, 0, 0, 2, 0, 0, 0, 0, 0, 0, 0, 1]⟩,
        ⟨[0, 0, 0, 0, 0, 0, 1, 0], [0, 0, 0, 1, 0, 0, 0, 0, 0, 0, 0, 9]⟩,
        ⟨[0, 0, 0, 0, 0, 0, 1, 0], [0, 0, 0, 1, 0, 0, 0, 0, 0, 0, 0, 9]⟩]
    let edges : List Edge := [⟨⟨7, 255⟩, ⟨2, 1⟩⟩, ⟨⟨7, 256⟩, ⟨1, 9⟩⟩, ⟨⟨7, 256⟩, ⟨1, 9⟩⟩]
    List.Forall₂ (fun record edge => LinkWalk.decodeEdge 7 record = .ok edge) records edges ∧
      (records.Pairwise fun first second => ¬ second.before first) ∧
        edges.Pairwise fun first second => ¬ second.before first := by
  intro records edges
  have decoded : List.Forall₂ (fun record edge => LinkWalk.decodeEdge 7 record = .ok edge)
      records edges := by
    repeat' constructor
  have sorted : records.Pairwise fun first second => ¬ second.before first := by
    simp only [records, Record.before]
    decide
  exact ⟨decoded, sorted, (layouts_exact.2.2 7 records edges decoded).1 sorted⟩

end EntityQuery
