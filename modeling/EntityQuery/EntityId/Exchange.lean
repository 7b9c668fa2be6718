import EntityQuery.EntityId
import EntityQuery.Json

/-!
# Identities as JSON

An identity is exchanged as an object with its type and its local number; further fields of an
object are ignored when it is read.
-/

namespace EntityQuery.EntityId

def toJson (id : EntityId) : Json :=
  .object [("type_id", .ofNat id.typeId.toNat), ("local_id", .ofNat id.localId.toNat)]

/-- The identity with the given parts. -/
def ofParts? (typeId localId : Option Json) : Option EntityId := do
  let typeId ← typeId.bind Json.word32?
  let localId ← localId.bind Json.word64?
  return ⟨typeId, localId⟩

/-- Read an identity from an object, or by position from an array. -/
def ofJson? : Json → Option EntityId
  | .object fields => ofParts? (Json.fieldIn? "type_id" fields) (Json.fieldIn? "local_id" fields)
  | .array [typeId, localId] => ofParts? (some typeId) (some localId)
  | _ => none

end EntityQuery.EntityId
