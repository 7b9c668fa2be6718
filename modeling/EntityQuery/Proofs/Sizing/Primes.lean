import Mathlib.NumberTheory.Bertrand
import EntityQuery.Proofs.Sizing.TrialDivision

/-!
# Roots and numbers of partitions

The ceiling root of a number is the least number whose square reaches it.  For a capacity that is a
word, the prime that follows the root is at most twice the root, far below the primes whose trial
division leaves the words.  So the number of partitions is the least prime whose square reaches the
capacity.
-/

namespace EntityQuery.Prime

/-! ## Roots -/

/-- The floor root of a number is the greatest one whose square does not exceed it. -/
theorem floorRoot_spec (number : Nat) :
    floorRoot number * floorRoot number ≤ number ∧
      number < (floorRoot number + 1) * (floorRoot number + 1) := by
  induction number using floorRoot.induct with
  | case1 => simp [floorRoot]
  | case2 number positive doubled fits inductionHypothesis =>
      rw [floorRoot, if_neg positive]
      simp only [doubled] at fits
      simp only [if_pos fits]
      rcases inductionHypothesis with ⟨_, above⟩
      generalize floorRoot (number / 4) = root at *
      constructor
      · exact fits
      · nlinarith [Nat.div_add_mod number 4, Nat.mod_lt number (show 4 > 0 by decide)]
  | case3 number positive doubled tooGreat inductionHypothesis =>
      rw [floorRoot, if_neg positive]
      simp only [doubled] at tooGreat
      simp only [if_neg tooGreat]
      rcases inductionHypothesis with ⟨below, _⟩
      generalize floorRoot (number / 4) = root at *
      constructor
      · nlinarith [Nat.div_mul_le_self number 4]
      · exact Nat.lt_of_not_le tooGreat

/-- Squares ascend: what is not below the least root reaches the number as well. -/
theorem le_iff_of_leastRoot {number least root : Nat} (reached : number ≤ least * least)
    (missed : ∀ smaller, smaller < least → smaller * smaller < number) :
    least ≤ root ↔ number ≤ root * root := by
  constructor
  · intro notAbove
    exact Nat.le_trans reached (Nat.mul_le_mul notAbove notAbove)
  · intro rootReaches
    apply Nat.le_of_not_lt
    intro smaller
    exact Nat.not_lt.2 rootReaches (missed root smaller)

/-- The ceiling root of a number is the least one whose square reaches it. -/
theorem ceilingRoot_le_iff {number root : Nat} :
    ceilingRoot number ≤ root ↔ number ≤ root * root := by
  rcases floorRoot_spec number with ⟨below, above⟩
  simp only [ceilingRoot]
  split
  · rename_i exceeded
    apply le_iff_of_leastRoot (Nat.le_of_lt above)
    intro smaller notAbove
    have square := Nat.mul_le_mul (Nat.le_of_lt_succ notAbove) (Nat.le_of_lt_succ notAbove)
    exact Nat.lt_of_le_of_lt square exceeded
  · rename_i squared
    apply le_iff_of_leastRoot (Nat.le_of_not_lt squared)
    intro smaller less
    exact Nat.lt_of_lt_of_le (Nat.mul_self_lt_mul_self less) below

/-! ## The number of partitions -/

/-- How a number of partitions follows from the capacity that is to be divided. -/
structure Divides (capacity count : Nat) : Prop where
  prime : count.Prime
  reaches : capacity ≤ count * count
  least : ∀ other, other.Prime → capacity ≤ other * other → count ≤ other
  /-- All roots and squares on the way are words, and so are the squares that the trial divisions
  compare and the numbers that are counted through. -/
  rootInWords : floorRoot capacity * floorRoot capacity < wordLimit ∧
    ceilingRoot capacity < wordLimit
  countInWords : ceilingPrime? (ceilingRoot capacity) = some count
  notAbove : count ≤ capacity

/-- The root of a capacity, and a prime that follows it within twice the root. -/
theorem root_spec {capacity : Nat} (atLeast : minimumCapacity ≤ capacity)
    (inWords : capacity < wordLimit) :
    ceilingRoot capacity ≤ 4294967296 ∧ 2 * ceilingRoot capacity ≤ capacity ∧
      ∃ prime : Nat, prime.Prime ∧ ceilingRoot capacity ≤ prime ∧
        prime ≤ 2 * ceilingRoot capacity := by
  simp only [minimumCapacity] at atLeast
  have notAbove : ceilingRoot capacity ≤ 4294967296 :=
    ceilingRoot_le_iff.2 (Nat.le_of_lt inWords)
  have atLeastFour : 4 ≤ ceilingRoot capacity := by
    apply Nat.lt_of_not_le
    intro atMostThree
    have reached := ceilingRoot_le_iff.1 atMostThree
    omega
  have missed : (ceilingRoot capacity - 1) * (ceilingRoot capacity - 1) < capacity := by
    apply Nat.lt_of_not_le
    intro reached
    have smaller := ceilingRoot_le_iff.2 reached
    omega
  refine ⟨notAbove, ?_, ?_⟩
  · generalize ceilingRoot capacity = root at *
    obtain ⟨rest, rfl⟩ := Nat.exists_eq_add_of_le atLeastFour
    have less : 4 + rest - 1 = rest + 3 := by omega
    rw [less] at missed
    nlinarith
  · rcases Nat.exists_prime_lt_and_le_two_mul (ceilingRoot capacity) (by omega) with
      ⟨prime, isPrime, above, within⟩
    exact ⟨prime, isPrime, Nat.le_of_lt above, within⟩

/-- The number of partitions is the least prime whose square reaches the capacity. -/
theorem divides_partitionCount {capacity : Nat} (inWords : capacity < wordLimit) :
    Divides (max capacity minimumCapacity) (partitionCount capacity) := by
  have sizeInWords : max capacity minimumCapacity < wordLimit := Nat.max_lt.2 ⟨inWords, by decide⟩
  rcases root_spec (Nat.le_max_right capacity minimumCapacity) sizeInWords with
    ⟨rootSmall, rootFits, bertrand, bertrandPrime, bertrandAbove, bertrandWithin⟩
  have reachesSome : ∃ prime : Nat, prime.Prime ∧
      ceilingRoot (max capacity minimumCapacity) ≤ prime := ⟨bertrand, bertrandPrime, bertrandAbove⟩
  have isLeast := Nat.isLeast_find reachesSome
  generalize Nat.find reachesSome = first at isLeast
  have notAboveBertrand : first ≤ bertrand := isLeast.2 ⟨bertrandPrime, bertrandAbove⟩
  have rootInWords : ceilingRoot (max capacity minimumCapacity) < wordLimit :=
    Nat.lt_of_le_of_lt rootSmall (by decide)
  have answered : ¬ lastOddRoot * lastOddRoot < first := by
    have limit : 2 * 4294967296 < lastOddRoot * lastOddRoot := by decide
    omega
  have found : ceilingPrime? (ceilingRoot (max capacity minimumCapacity)) = some first := by
    rw [ceilingPrime?_eq rootInWords isLeast, if_neg answered]
  have counted : partitionCount capacity = first := by
    simp only [partitionCount, found, Option.getD_some]
  rw [counted]
  constructor
  case prime => exact isLeast.1.1
  case reaches => exact ceilingRoot_le_iff.1 isLeast.1.2
  case least =>
    intro other otherPrime reaches
    exact isLeast.2 ⟨otherPrime, ceilingRoot_le_iff.2 reaches⟩
  case rootInWords =>
    constructor
    · exact Nat.lt_of_le_of_lt (floorRoot_spec _).1 sizeInWords
    · exact rootInWords
  case countInWords => exact found
  case notAbove => omega

end EntityQuery.Prime
