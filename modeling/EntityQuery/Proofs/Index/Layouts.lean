import Mathlib.Algebra.Order.Ring.Nat
import Mathlib.Data.List.Induction
import EntityQuery.Index.Layout

/-!
# Layouts read exactly

A key or a value that can be read is the one that is written for what was read.  A byte string of a
given length is determined by the number that it writes, so reading a number and writing it again
gives the same bytes.
-/

namespace EntityQuery

namespace Bytes

theorem toNat_concat (bytes : List UInt8) (byte : UInt8) :
    toNat (bytes ++ [byte]) = toNat bytes * 256 + byte.toNat := by
  rw [toNat, List.foldl_append, ← toNat]
  rfl

theorem toNat_lt (bytes : List UInt8) : toNat bytes < 256 ^ bytes.length := by
  induction bytes using List.reverseRecOn with
  | nil => exact Nat.one_pos
  | append_singleton front byte inductionHypothesis =>
      have digit := byte.toNat_lt
      rw [toNat_concat, List.length_append, List.length_singleton, pow_succ]
      omega

/-- Byte strings of one length that write one number are equal. -/
theorem eq_of_toNat_eq {first second : List UInt8} (sameLength : first.length = second.length)
    (sameNumber : toNat first = toNat second) : first = second := by
  induction first using List.reverseRecOn generalizing second with
  | nil => exact (List.length_eq_zero_iff.1 sameLength.symm).symm
  | append_singleton front byte inductionHypothesis =>
      cases second using List.reverseRecOn with
      | nil =>
          rw [List.length_append, List.length_singleton] at sameLength
          cases sameLength
      | append_singleton others last _ =>
          have digit := byte.toNat_lt
          have lastDigit := last.toNat_lt
          rw [toNat_concat, toNat_concat] at sameNumber
          have sameFront : front = others :=
            inductionHypothesis (by simpa using sameLength) (by omega)
          have sameByte : byte = last := UInt8.toNat_inj.1 (by omega)
          rw [sameFront, sameByte]

end Bytes

namespace Layout

theorem eq_encodeLocalId_of_decode {bytes : List UInt8} {localId : UInt64}
    (decoded : decodeLocalId bytes = .ok localId) : bytes = encodeLocalId localId := by
  rw [decodeLocalId] at decoded
  split at decoded
  · rename_i length
    cases decoded
    have bounded := Bytes.toNat_lt bytes
    rw [length] at bounded
    apply Bytes.eq_of_toNat_eq length
    rw [encodeLocalId, Bytes.toNat_bigEndian64]
    exact (Nat.mod_eq_of_lt bounded).symm
  · cases decoded

/-- A key that can be read is the key of the entity that it stands for. -/
theorem eq_encodeLocalId_of_decodeEntityKey {typeId : TypeId} {key : List UInt8} {id : EntityId}
    (decoded : decodeEntityKey typeId key = .ok id) :
    key = encodeLocalId id.localId ∧ id.typeId = typeId := by
  rw [decodeEntityKey] at decoded
  cases number : decodeLocalId key with
  | error error =>
      rw [number] at decoded
      cases decoded
  | ok localId =>
      rw [number] at decoded
      cases decoded
      exact ⟨eq_encodeLocalId_of_decode number, rfl⟩

/-- The type in front of a value is the number that its bytes write. -/
theorem take_eq_bigEndian32 {bytes : List UInt8} (length : (bytes.take 4).length = 4) :
    bytes.take 4 = Bytes.bigEndian32 (Bytes.toNat (bytes.take 4)).toUInt32 := by
  have bounded := Bytes.toNat_lt (bytes.take 4)
  rw [length] at bounded
  apply Bytes.eq_of_toNat_eq length
  rw [Bytes.toNat_bigEndian32]
  exact (Nat.mod_eq_of_lt bounded).symm

/-- A value that can be read is the value of the target that it stands for. -/
theorem eq_encodeLinkTarget_of_decode {bytes : List UInt8} {target : EntityId}
    (decoded : decodeLinkTarget bytes = .ok target) : bytes = encodeLinkTarget target := by
  have length := length_of_decodeLinkTarget decoded
  have typeLength : (bytes.take 4).length = 4 := by
    rw [List.length_take, length]
    rfl
  have whole : bytes.length = linkTargetLength := length
  rw [decodeLinkTarget, if_pos whole] at decoded
  cases number : decodeLocalId (bytes.drop 4) with
  | error error =>
      rw [number] at decoded
      cases decoded
  | ok localId =>
      rw [number] at decoded
      cases decoded
      calc bytes = bytes.take 4 ++ bytes.drop 4 := (List.take_append_drop 4 bytes).symm
        _ = Bytes.bigEndian32 (Bytes.toNat (bytes.take 4)).toUInt32 ++ encodeLocalId localId := by
          rw [← take_eq_bigEndian32 typeLength, ← eq_encodeLocalId_of_decode number]

end Layout

end EntityQuery
