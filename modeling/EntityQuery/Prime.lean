/-!
# Primes for sizing partition tables

A partition table has a prime number of partitions, chosen from the capacity it has to hold.  The
arithmetic is that of 64-bit words: a square or a successor that does not fit one is reported as
`none` instead of being computed, so an answer never rests on a wrapped product.

`partitionCount` is the number used by the cache: the least prime not below the ceiling square
root of the capacity.
-/

namespace EntityQuery.Prime

/-- The number of values of a 64-bit word. -/
def wordLimit : Nat := UInt64.size

/-- The least word whose square is none. -/
def rootLimit : UInt64 := 4294967296

/--
Whether no odd number from `divisor` on divides `candidate`, tried up to the last one whose square
does not pass the candidate.  The answer is `none` when a square to compare leaves the word range.
-/
def hasNoOddDivisorFrom? (candidate divisor : UInt64) : Option Bool :=
  if divisor < rootLimit then
    if divisor * divisor ≤ candidate then
      if candidate % divisor = 0 then
        some false
      else
        hasNoOddDivisorFrom? candidate (divisor + 2)
    else
      some true
  else
    none
termination_by UInt64.size - divisor.toNat
decreasing_by
  have inWords : divisor.toNat < 4294967296 := UInt64.lt_iff_toNat_lt.1 ‹divisor < rootLimit›
  have later : (divisor + 2).toNat = (divisor.toNat + 2) % 18446744073709551616 :=
    UInt64.toNat_add divisor 2
  simp only [UInt64.size]
  omega

/-- Whether a word is prime, or `none` when trial division would leave the word range. -/
def isPrime? (candidate : Nat) : Option Bool :=
  if candidate < 2 then some false
  else if candidate < 4 then some true
  else if candidate % 2 = 0 then some false
  else if candidate < wordLimit then hasNoOddDivisorFrom? candidate.toUInt64 3
  else none

/-- The first prime met when counting up from `candidate`, or `none` when the words run out. -/
def firstPrimeFrom? (candidate : Nat) : Option Nat :=
  match isPrime? candidate with
  | none => none
  | some true => some candidate
  | some false =>
      if candidate + 1 < wordLimit then
        firstPrimeFrom? (candidate + 1)
      else
        none
termination_by wordLimit - candidate

/-- The least prime that is not below `bound`. -/
def ceilingPrime? (bound : Nat) : Option Nat :=
  firstPrimeFrom? (max bound 2)

/-- The greatest number whose square does not exceed `number`, two binary digits at a time. -/
def floorRoot (number : Nat) : Nat :=
  if number = 0 then
    0
  else
    let doubled := 2 * floorRoot (number / 4)
    if (doubled + 1) * (doubled + 1) ≤ number then doubled + 1 else doubled
termination_by number
decreasing_by omega

/-- The least number whose square reaches `number`. -/
def ceilingRoot (number : Nat) : Nat :=
  let root := floorRoot number
  if root * root < number then root + 1 else root

/-- The least capacity a partition table is laid out for. -/
def minimumCapacity : Nat := 16

/--
The number of partitions for a capacity.  The root of a word is at most `2 ^ 32`, and a prime
follows it well inside the word range.
-/
def partitionCount (capacity : Nat) : Nat :=
  let root := ceilingRoot (max capacity minimumCapacity)
  (ceilingPrime? root).getD root

/-! ## Bounds -/

/-- Counting up never goes below the start. -/
theorem le_of_firstPrimeFrom? {candidate prime : Nat}
    (found : firstPrimeFrom? candidate = some prime) : candidate ≤ prime := by
  induction candidate using firstPrimeFrom?.induct with
  | case1 candidate unknown =>
      rw [firstPrimeFrom?, unknown] at found
      simp at found
  | case2 candidate isPrime =>
      rw [firstPrimeFrom?, isPrime] at found
      simp only [Option.some.injEq] at found
      exact Nat.le_of_eq found
  | case3 candidate notPrime inRange inductionHypothesis =>
      rw [firstPrimeFrom?, notPrime] at found
      simp only [inRange, if_true] at found
      exact Nat.le_of_succ_le (inductionHypothesis found)
  | case4 candidate notPrime outOfRange =>
      rw [firstPrimeFrom?, notPrime] at found
      simp [outOfRange] at found

theorem ceilingRoot_pos {number : Nat} (positive : 0 < number) : 0 < ceilingRoot number := by
  simp only [ceilingRoot]
  split
  · exact Nat.succ_pos _
  · rename_i reached
    rcases Nat.eq_zero_or_pos (floorRoot number) with zero | rootPositive
    · rw [zero] at reached
      omega
    · exact rootPositive

theorem partitionCount_pos (capacity : Nat) : 0 < partitionCount capacity := by
  have rootPositive : 0 < ceilingRoot (max capacity minimumCapacity) :=
    ceilingRoot_pos (Nat.lt_of_lt_of_le (by decide) (Nat.le_max_right _ _))
  simp only [partitionCount]
  cases found : ceilingPrime? (ceilingRoot (max capacity minimumCapacity)) with
  | none => simpa using rootPositive
  | some prime =>
      have bound := le_of_firstPrimeFrom? found
      simp only [Option.getD_some]
      omega

end EntityQuery.Prime
