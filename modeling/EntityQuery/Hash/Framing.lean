import EntityQuery.Bytes
import EntityQuery.Hash.Xxh3

/-!
# The framed hash stream

Structural identities are hashed over a stream of framed writes: a tag is one byte, numbers have a
fixed width with the most significant byte first, and a text is preceded by its length in bytes.
Two sequences of writes of the same kinds therefore produce the same bytes only if they write the
same values.

The digest of a sequence of writes is the digest of their bytes, one after the other.
-/

namespace EntityQuery

/-- One framed write to the hash stream. -/
inductive HashWrite where
  | tag (value : UInt8)
  | word32 (value : UInt32)
  | word64 (value : UInt64)
  | text (value : String)
  | delimiter
deriving DecidableEq, Repr

namespace HashWrite

/-- The byte that separates a base from its decoration. -/
def delimiterTag : UInt8 := 0xFF

def bytes : HashWrite → List UInt8
  | .tag value => [value]
  | .word32 value => Bytes.bigEndian32 value
  | .word64 value => Bytes.bigEndian64 value
  | .text value => Bytes.bigEndian32 value.utf8ByteSize.toUInt32 ++ Bytes.ofString value
  | .delimiter => [delimiterTag]

def stream (writes : List HashWrite) : List UInt8 :=
  writes.flatMap bytes

def digest (writes : List HashWrite) : UInt64 :=
  Xxh3.digest (stream writes)

/-- The digest before any of the writes and after each of them. -/
def runningDigests (writes : List HashWrite) : List UInt64 :=
  (List.range (writes.length + 1)).map fun count => digest (writes.take count)

end HashWrite

end EntityQuery
