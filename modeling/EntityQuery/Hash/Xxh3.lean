/-!
# The XXH3 hash with a 64-bit digest

The digest of a byte string under seed zero and the default secret.  Short inputs are mixed
directly, with one formula per range of lengths; inputs longer than 240 bytes run through eight
accumulator lanes, 64 bytes at a time, and the lanes are merged at the end.

All arithmetic is modulo `2 ^ 64` except the folded product, which keeps both halves of a
128-bit product.
-/

namespace EntityQuery.Xxh3

def secret : ByteArray := ⟨#[
  0xb8, 0xfe, 0x6c, 0x39, 0x23, 0xa4, 0x4b, 0xbe, 0x7c, 0x01, 0x81, 0x2c, 0xf7, 0x21, 0xad, 0x1c,
  0xde, 0xd4, 0x6d, 0xe9, 0x83, 0x90, 0x97, 0xdb, 0x72, 0x40, 0xa4, 0xa4, 0xb7, 0xb3, 0x67, 0x1f,
  0xcb, 0x79, 0xe6, 0x4e, 0xcc, 0xc0, 0xe5, 0x78, 0x82, 0x5a, 0xd0, 0x7d, 0xcc, 0xff, 0x72, 0x21,
  0xb8, 0x08, 0x46, 0x74, 0xf7, 0x43, 0x24, 0x8e, 0xe0, 0x35, 0x90, 0xe6, 0x81, 0x3a, 0x26, 0x4c,
  0x3c, 0x28, 0x52, 0xbb, 0x91, 0xc3, 0x00, 0xcb, 0x88, 0xd0, 0x65, 0x8b, 0x1b, 0x53, 0x2e, 0xa3,
  0x71, 0x64, 0x48, 0x97, 0xa2, 0x0d, 0xf9, 0x4e, 0x38, 0x19, 0xef, 0x46, 0xa9, 0xde, 0xac, 0xd8,
  0xa8, 0xfa, 0x76, 0x3f, 0xe3, 0x9c, 0x34, 0x3f, 0xf9, 0xdc, 0xbb, 0xc7, 0xc7, 0x0b, 0x4f, 0x1d,
  0x8a, 0x51, 0xe0, 0x4b, 0xcd, 0xb4, 0x59, 0x31, 0xc8, 0x9f, 0x7e, 0xc9, 0xd9, 0x78, 0x73, 0x64,
  0xea, 0xc5, 0xac, 0x83, 0x34, 0xd3, 0xeb, 0xc3, 0xc5, 0x81, 0xa0, 0xff, 0xfa, 0x13, 0x63, 0xeb,
  0x17, 0x0d, 0xdd, 0x51, 0xb7, 0xf0, 0xda, 0x49, 0xd3, 0x16, 0x55, 0x26, 0x29, 0xd4, 0x68, 0x9e,
  0x2b, 0x16, 0xbe, 0x58, 0x7d, 0x47, 0xa1, 0xfc, 0x8f, 0xf8, 0xb8, 0xd1, 0x7a, 0xd0, 0x31, 0xce,
  0x45, 0xcb, 0x3a, 0x8f, 0x95, 0x16, 0x04, 0x28, 0xaf, 0xd7, 0xfb, 0xca, 0xbb, 0x4b, 0x40, 0x7e]⟩

/-! ## Constants -/

/-- The five 64-bit primes and three 32-bit primes that the mixing steps multiply by. -/
def prime64First : UInt64 := 0x9E3779B185EBCA87

@[inherit_doc prime64First]
def prime64Second : UInt64 := 0xC2B2AE3D27D4EB4F

@[inherit_doc prime64First]
def prime64Third : UInt64 := 0x165667B19E3779F9

@[inherit_doc prime64First]
def prime64Fourth : UInt64 := 0x85EBCA77C2B2AE63

@[inherit_doc prime64First]
def prime64Fifth : UInt64 := 0x27D4EB2F165667C5

@[inherit_doc prime64First]
def prime32First : UInt64 := 0x9E3779B1

@[inherit_doc prime64First]
def prime32Second : UInt64 := 0x85EBCA77

@[inherit_doc prime64First]
def prime32Third : UInt64 := 0xC2B2AE3D

/-! ## Reading words -/

/-- The byte at an offset; zero past the end, where no formula reads. -/
def byteAt (bytes : ByteArray) (offset : Nat) : UInt64 :=
  if inside : offset < bytes.size then bytes[offset].toUInt64 else 0

/-- The 32-bit word at an offset, least significant byte first. -/
def word32At (bytes : ByteArray) (offset : Nat) : UInt64 :=
  byteAt bytes offset ||| (byteAt bytes (offset + 1) <<< 8)
    ||| (byteAt bytes (offset + 2) <<< 16) ||| (byteAt bytes (offset + 3) <<< 24)

/-- The 64-bit word at an offset, least significant byte first. -/
def word64At (bytes : ByteArray) (offset : Nat) : UInt64 :=
  word32At bytes offset ||| (word32At bytes (offset + 4) <<< 32)

/-- The exclusive or of two neighbouring words of the secret. -/
def secretPair (offset : Nat) : UInt64 :=
  word64At secret offset ^^^ word64At secret (offset + 8)

/-! ## Mixing steps -/

/-- A word rotated to the left by an amount between 1 and 63. -/
def rotateLeft (word amount : UInt64) : UInt64 :=
  (word <<< amount) ||| (word >>> (64 - amount))

/-- A word with its eight bytes in the opposite order. -/
def swapBytes (word : UInt64) : UInt64 :=
  (List.range 8).foldl
    (fun swapped index => swapped <<< 8 ||| (word >>> (8 * index.toUInt64)).toUInt8.toUInt64) 0

/-- The two halves of the 128-bit product, folded into one word. -/
def foldProduct (left right : UInt64) : UInt64 :=
  let product := left.toNat * right.toNat
  product.toUInt64 ^^^ (product / UInt64.size).toUInt64

/-- The final mix of medium and long inputs. -/
def avalanche (word : UInt64) : UInt64 :=
  let shifted := word ^^^ (word >>> 37)
  let scaled := shifted * 0x165667919E3779F9
  scaled ^^^ (scaled >>> 32)

/-- The final mix of inputs of at most three bytes. -/
def shortAvalanche (word : UInt64) : UInt64 :=
  let first := (word ^^^ (word >>> 33)) * prime64Second
  let second := (first ^^^ (first >>> 29)) * prime64Third
  second ^^^ (second >>> 32)

/-- The final mix of inputs of four to eight bytes. -/
def rotatingAvalanche (word length : UInt64) : UInt64 :=
  let rotated := word ^^^ rotateLeft word 49 ^^^ rotateLeft word 24
  let first := rotated * 0x9FB21C651E98DF25
  let second := (first ^^^ ((first >>> 35) + length)) * 0x9FB21C651E98DF25
  second ^^^ (second >>> 28)

/-- Sixteen input bytes against sixteen bytes of the secret. -/
def mixSixteen (bytes : ByteArray) (offset secretOffset : Nat) : UInt64 :=
  foldProduct (word64At bytes offset ^^^ word64At secret secretOffset)
    (word64At bytes (offset + 8) ^^^ word64At secret (secretOffset + 8))

/-! ## Inputs of at most 240 bytes -/

def digestTiny (bytes : ByteArray) : UInt64 :=
  let size := bytes.size
  let combined := (byteAt bytes 0 <<< 16) ||| (byteAt bytes (size / 2) <<< 24)
    ||| byteAt bytes (size - 1) ||| (size.toUInt64 <<< 8)
  shortAvalanche (combined ^^^ (word32At secret 0 ^^^ word32At secret 4))

/-- The digest of four to eight bytes. -/
def digestWord (bytes : ByteArray) : UInt64 :=
  let size := bytes.size
  let joined := word32At bytes (size - 4) + (word32At bytes 0 <<< 32)
  rotatingAvalanche (joined ^^^ secretPair 8) size.toUInt64

/-- The digest of nine to sixteen bytes. -/
def digestPair (bytes : ByteArray) : UInt64 :=
  let size := bytes.size
  let low := word64At bytes 0 ^^^ secretPair 24
  let high := word64At bytes (size - 8) ^^^ secretPair 40
  avalanche (size.toUInt64 + swapBytes low + high + foldProduct low high)

/-- The digest of 17 to 128 bytes: pairs of sixteen-byte pieces taken from both ends. -/
def digestMedium (bytes : ByteArray) : UInt64 :=
  let size := bytes.size
  let pieces := (size - 1) / 32 + 1
  avalanche <| (List.range pieces).foldl
    (fun total piece => total + mixSixteen bytes (16 * piece) (32 * piece)
      + mixSixteen bytes (size - 16 * (piece + 1)) (32 * piece + 16))
    (size.toUInt64 * prime64First)

/-- The digest of 129 to 240 bytes: eight pieces, a mix, the further pieces, and the last bytes. -/
def digestUpper (bytes : ByteArray) : UInt64 :=
  let size := bytes.size
  let firstPieces := (List.range 8).foldl
    (fun total piece => total + mixSixteen bytes (16 * piece) (16 * piece))
    (size.toUInt64 * prime64First)
  let allPieces := (List.range (size / 16 - 8)).foldl
    (fun total piece => total + mixSixteen bytes (16 * (piece + 8)) (16 * piece + 3))
    (avalanche firstPieces)
  avalanche (allPieces + mixSixteen bytes (size - 16) 119)

/-! ## Longer inputs -/

/-- The eight accumulators of a long input. -/
abbrev Lanes := Vector UInt64 8

def initialLanes : Lanes :=
  #v[prime32Third, prime64First, prime64Second, prime64Third, prime64Fourth, prime32Second,
    prime64Fifth, prime32First]

/-- Add one stripe of 64 bytes: each lane takes its neighbour's word and its own keyed product. -/
def accumulate (bytes : ByteArray) (offset secretOffset : Nat) (lanes : Lanes) : Lanes :=
  Vector.ofFn fun lane =>
    let keyed := word64At bytes (offset + 8 * lane.val)
      ^^^ word64At secret (secretOffset + 8 * lane.val)
    lanes[lane] + word64At bytes (offset + 8 * (lane.val ^^^ 1))
      + keyed.toUInt32.toUInt64 * (keyed >>> 32)

/-- Stir the accumulators after sixteen stripes. -/
def scramble (lanes : Lanes) : Lanes :=
  Vector.ofFn fun lane =>
    let value := lanes[lane]
    (value ^^^ (value >>> 47) ^^^ word64At secret (128 + 8 * lane.val)) * prime32First

/-- Add the stripe of the given index and scramble at the end of each block of sixteen. -/
def absorbStripe (bytes : ByteArray) (lanes : Lanes) (stripe : Nat) : Lanes :=
  let added := accumulate bytes (64 * stripe) (8 * (stripe % 16)) lanes
  if stripe % 16 = 15 then scramble added else added

def mergeLanes (lanes : Lanes) (start : UInt64) : UInt64 :=
  avalanche <| start
    + foldProduct (lanes[0] ^^^ word64At secret 11) (lanes[1] ^^^ word64At secret 19)
    + foldProduct (lanes[2] ^^^ word64At secret 27) (lanes[3] ^^^ word64At secret 35)
    + foldProduct (lanes[4] ^^^ word64At secret 43) (lanes[5] ^^^ word64At secret 51)
    + foldProduct (lanes[6] ^^^ word64At secret 59) (lanes[7] ^^^ word64At secret 67)

/-- The digest of more than 240 bytes; the last 64 bytes are always added once more. -/
def digestLong (bytes : ByteArray) : UInt64 :=
  let size := bytes.size
  let lanes := (List.range ((size - 1) / 64)).foldl (absorbStripe bytes) initialLanes
  mergeLanes (accumulate bytes (size - 64) 121 lanes) (size.toUInt64 * prime64First)

def digestArray (bytes : ByteArray) : UInt64 :=
  let size := bytes.size
  if size = 0 then shortAvalanche (secretPair 56)
  else if size ≤ 3 then digestTiny bytes
  else if size ≤ 8 then digestWord bytes
  else if size ≤ 16 then digestPair bytes
  else if size ≤ 128 then digestMedium bytes
  else if size ≤ 240 then digestUpper bytes
  else digestLong bytes

def digest (bytes : List UInt8) : UInt64 :=
  digestArray ⟨bytes.toArray⟩

end EntityQuery.Xxh3
