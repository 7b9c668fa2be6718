/-!
# Machine words as byte strings

Index keys and the hash stream write words with the most significant byte first, so that the
lexicographic order of the bytes is the numeric order of the words.  Routing writes them with the
least significant byte first.  A byte string is a list of bytes.
-/

namespace EntityQuery.Bytes

/-- The four bytes of a word, most significant first. -/
def bigEndian32 (word : UInt32) : List UInt8 :=
  [(word >>> 24).toUInt8, (word >>> 16).toUInt8, (word >>> 8).toUInt8, word.toUInt8]

/-- The eight bytes of a word, most significant first. -/
def bigEndian64 (word : UInt64) : List UInt8 :=
  [(word >>> 56).toUInt8, (word >>> 48).toUInt8, (word >>> 40).toUInt8, (word >>> 32).toUInt8,
    (word >>> 24).toUInt8, (word >>> 16).toUInt8, (word >>> 8).toUInt8, word.toUInt8]

/-- The four bytes of a word, least significant first. -/
def littleEndian32 (word : UInt32) : List UInt8 :=
  (bigEndian32 word).reverse

/-- The eight bytes of a word, least significant first. -/
def littleEndian64 (word : UInt64) : List UInt8 :=
  (bigEndian64 word).reverse

/-- The number that a byte string writes in base 256, most significant digit first. -/
def toNat (bytes : List UInt8) : Nat :=
  bytes.foldl (fun value byte => value * 256 + byte.toNat) 0

def ofString (text : String) : List UInt8 :=
  text.toUTF8.data.toList

@[simp]
theorem length_bigEndian32 (word : UInt32) : (bigEndian32 word).length = 4 := rfl

@[simp]
theorem length_bigEndian64 (word : UInt64) : (bigEndian64 word).length = 8 := rfl

/-! ## Reading words back -/

/-- Appending a byte of a number to the digits in front of it. -/
theorem append_byte (number low : Nat) {high : Nat} (next : high = low + 8) :
    (number >>> high) * 256 + number >>> low % 256 = number >>> low := by
  rw [next, Nat.shiftRight_add, Nat.shiftRight_eq_div_pow (number >>> low) 8]
  exact Nat.div_add_mod' _ 256

theorem toNat_bigEndian32 (word : UInt32) : toNat (bigEndian32 word) = word.toNat := by
  have leading : word.toNat >>> 24 < 256 := by
    rw [Nat.shiftRight_eq_div_pow]
    exact Nat.div_lt_of_lt_mul word.toNat_lt
  have byte (shift : UInt32) (amount : Nat) (same : shift.toNat % 32 = amount) :
      (word >>> shift).toUInt8.toNat = word.toNat >>> amount % 256 := by
    rw [UInt32.toNat_toUInt8, UInt32.toNat_shiftRight, same]
  rw [toNat, bigEndian32]
  simp only [List.foldl_cons, List.foldl_nil]
  rw [byte 24 24 rfl, byte 16 16 rfl, byte 8 8 rfl, UInt32.toNat_toUInt8, Nat.zero_mul,
    Nat.zero_add, Nat.mod_eq_of_lt leading, append_byte _ 16 rfl, append_byte _ 8 rfl]
  exact append_byte word.toNat 0 rfl

theorem toNat_bigEndian64 (word : UInt64) : toNat (bigEndian64 word) = word.toNat := by
  have leading : word.toNat >>> 56 < 256 := by
    rw [Nat.shiftRight_eq_div_pow]
    exact Nat.div_lt_of_lt_mul word.toNat_lt
  have byte (shift : UInt64) (amount : Nat) (same : shift.toNat % 64 = amount) :
      (word >>> shift).toUInt8.toNat = word.toNat >>> amount % 256 := by
    rw [UInt64.toNat_toUInt8, UInt64.toNat_shiftRight, same]
  rw [toNat, bigEndian64]
  simp only [List.foldl_cons, List.foldl_nil]
  rw [byte 56 56 rfl, byte 48 48 rfl, byte 40 40 rfl, byte 32 32 rfl, byte 24 24 rfl,
    byte 16 16 rfl, byte 8 8 rfl, UInt64.toNat_toUInt8, Nat.zero_mul, Nat.zero_add,
    Nat.mod_eq_of_lt leading, append_byte _ 48 rfl, append_byte _ 40 rfl, append_byte _ 32 rfl,
    append_byte _ 24 rfl, append_byte _ 16 rfl, append_byte _ 8 rfl]
  exact append_byte word.toNat 0 rfl

theorem bigEndian32_inj {first second : UInt32} :
    bigEndian32 first = bigEndian32 second ↔ first = second := by
  constructor
  · intro same
    have number := congrArg toNat same
    rwa [toNat_bigEndian32, toNat_bigEndian32, UInt32.toNat_inj] at number
  · exact congrArg bigEndian32

theorem bigEndian64_inj {first second : UInt64} :
    bigEndian64 first = bigEndian64 second ↔ first = second := by
  constructor
  · intro same
    have number := congrArg toNat same
    rwa [toNat_bigEndian64, toNat_bigEndian64, UInt64.toNat_inj] at number
  · exact congrArg bigEndian64

/-- A word in front of other bytes can be read off. -/
theorem bigEndian32_append_inj {first second : UInt32} {rest others : List UInt8}
    (same : bigEndian32 first ++ rest = bigEndian32 second ++ others) :
    first = second ∧ rest = others := by
  have sameLength : (bigEndian32 first).length = (bigEndian32 second).length := by
    rw [length_bigEndian32, length_bigEndian32]
  obtain ⟨word, behind⟩ := List.append_inj same sameLength
  exact ⟨bigEndian32_inj.1 word, behind⟩

theorem bigEndian64_append_inj {first second : UInt64} {rest others : List UInt8}
    (same : bigEndian64 first ++ rest = bigEndian64 second ++ others) :
    first = second ∧ rest = others := by
  have sameLength : (bigEndian64 first).length = (bigEndian64 second).length := by
    rw [length_bigEndian64, length_bigEndian64]
  obtain ⟨word, behind⟩ := List.append_inj same sameLength
  exact ⟨bigEndian64_inj.1 word, behind⟩

/-! ## Texts -/

@[simp]
theorem length_ofString (text : String) : (ofString text).length = text.utf8ByteSize := rfl

theorem ofString_inj {first second : String} : ofString first = ofString second ↔ first = second := by
  constructor
  · intro same
    exact String.toByteArray_inj.1 (ByteArray.ext (Array.toList_inj.1 same))
  · exact congrArg ofString

end EntityQuery.Bytes
