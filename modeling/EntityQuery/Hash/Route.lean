import EntityQuery.EntityId
import EntityQuery.Bytes
import EntityQuery.Hash.Xxh3

/-!
# Routing hashes

A partitioned cache sends each key to one partition by the digest of the key's routing bytes.
Numbers are written with the least significant byte first, and a text is closed by the byte `0xFF`,
which occurs in no encoded text.
-/

namespace EntityQuery

/-- Keys that can be routed to a partition. -/
class Routed (κ : Type) where
  /-- The bytes whose digest routes the key. -/
  routeBytes : κ → List UInt8

def route {κ : Type} [Routed κ] (key : κ) : UInt64 :=
  Xxh3.digest (Routed.routeBytes key)

instance : Routed UInt8 := ⟨fun value => [value]⟩

instance : Routed UInt32 := ⟨Bytes.littleEndian32⟩

instance : Routed UInt64 := ⟨Bytes.littleEndian64⟩

instance : Routed String := ⟨fun value => Bytes.ofString value ++ [0xFF]⟩

instance : Routed EntityId :=
  ⟨fun id => Bytes.littleEndian32 id.typeId ++ Bytes.littleEndian64 id.localId⟩

end EntityQuery
