import EntityQuery.Bytes
import EntityQuery.QueryError

/-!
# Key and value layouts of the indexes

The entity index of a type has one key per entity: the local number in eight bytes.  The link index
of a type and a link has the source's local number as key and the target as value: four bytes of
type and eight bytes of local number.  The most significant byte comes first throughout, so sorting
an index by its bytes sorts it by its numbers.
-/

namespace EntityQuery.Layout

def localIdLength : Nat := 8

def linkTargetLength : Nat := 4 + localIdLength

def encodeLocalId (localId : UInt64) : List UInt8 :=
  Bytes.bigEndian64 localId

/-- The local number of a key; any other length than eight is refused. -/
def decodeLocalId (bytes : List UInt8) : Except QueryError UInt64 :=
  if bytes.length = localIdLength then
    .ok (Bytes.toNat bytes).toUInt64
  else
    .error (.entityKeyLength bytes.length)

/-- The identity that a key of the index of a type stands for. -/
def decodeEntityKey (typeId : TypeId) (key : List UInt8) : Except QueryError EntityId :=
  (decodeLocalId key).map fun localId => ⟨typeId, localId⟩

def encodeLinkTarget (target : EntityId) : List UInt8 :=
  Bytes.bigEndian32 target.typeId ++ Bytes.bigEndian64 target.localId

/-- The link target of a value; any other length than twelve is refused. -/
def decodeLinkTarget (bytes : List UInt8) : Except QueryError EntityId :=
  if bytes.length = linkTargetLength then
    (decodeLocalId (bytes.drop 4)).map fun localId =>
      ⟨(Bytes.toNat (bytes.take 4)).toUInt32, localId⟩
  else
    .error (.linkTargetLength bytes.length)

/-! ## Reading keys and values back -/

theorem decodeLocalId_encodeLocalId (localId : UInt64) :
    decodeLocalId (encodeLocalId localId) = .ok localId := by
  simp [decodeLocalId, encodeLocalId, localIdLength, Bytes.toNat_bigEndian64]

theorem decodeEntityKey_encodeLocalId (id : EntityId) :
    decodeEntityKey id.typeId (encodeLocalId id.localId) = .ok id := by
  simp [decodeEntityKey, decodeLocalId_encodeLocalId, Except.map]

theorem decodeLinkTarget_encodeLinkTarget (target : EntityId) :
    decodeLinkTarget (encodeLinkTarget target) = .ok target := by
  have typePart : (encodeLinkTarget target).take 4 = Bytes.bigEndian32 target.typeId := rfl
  have localPart : (encodeLinkTarget target).drop 4 = encodeLocalId target.localId := rfl
  have length : (encodeLinkTarget target).length = linkTargetLength := rfl
  simp [decodeLinkTarget, typePart, localPart, length, decodeLocalId_encodeLocalId,
    Bytes.toNat_bigEndian32, Except.map]

/-! ## Lengths -/

theorem length_of_decodeEntityKey {typeId : TypeId} {key : List UInt8} {id : EntityId}
    (decoded : decodeEntityKey typeId key = .ok id) : key.length = 8 := by
  rw [decodeEntityKey, decodeLocalId] at decoded
  split at decoded
  · assumption
  · cases decoded

theorem error_of_decodeEntityKey {typeId : TypeId} {key : List UInt8} {error : QueryError}
    (refused : decodeEntityKey typeId key = .error error) :
    key.length ≠ 8 ∧ error = .entityKeyLength key.length := by
  rw [decodeEntityKey, decodeLocalId] at refused
  split at refused
  · cases refused
  · rename_i length
    cases refused
    exact ⟨length, rfl⟩

theorem length_of_decodeLinkTarget {bytes : List UInt8} {id : EntityId}
    (decoded : decodeLinkTarget bytes = .ok id) : bytes.length = 12 := by
  rw [decodeLinkTarget] at decoded
  split at decoded
  · assumption
  · cases decoded

theorem error_of_decodeLinkTarget {bytes : List UInt8} {error : QueryError}
    (refused : decodeLinkTarget bytes = .error error) :
    bytes.length ≠ 12 ∧ error = .linkTargetLength bytes.length := by
  rw [decodeLinkTarget] at refused
  split at refused
  · rename_i length
    -- Behind the type, twelve bytes leave the eight of a local number.
    have localLength : (bytes.drop 4).length = localIdLength := by
      rw [List.length_drop, length]
      rfl
    rw [decodeLocalId, if_pos localLength] at refused
    cases refused
  · rename_i length
    cases refused
    exact ⟨length, rfl⟩

end EntityQuery.Layout
