import Mathlib.Data.Nat.Prime.Infinite
import Mathlib.NumberTheory.LucasPrimality
import Mathlib.Order.Bounds.Basic
import Mathlib.Tactic.IntervalCases
import Mathlib.Tactic.Linarith
import Mathlib.Tactic.NormNum.Prime
import Mathlib.Tactic.ReduceModChar
import EntityQuery.Prime

/-!
# Trial division among words

Trial division from three on compares the squares of odd numbers with the candidate.  The last odd
number whose square is a word is the one below the root limit; behind it there is no square to
compare any more.  So a candidate is decided unless all odd numbers up to this last one have been
tried in vain although none of their squares passes the candidate.  Such a candidate has no factor
below its root: it is a prime, and one above the last square.

Hence the answer is always right where there is one, and what stays without an answer are exactly the
primes of the last stretch of words.  Counting up finds the least prime from the start on, unless
this prime is one of these.
-/

namespace EntityQuery.Prime

/-! ## Squares of words -/

/-- Below the root limit the square is the one of the numbers. -/
theorem toNat_mul_self {root : UInt64} (inWords : root < rootLimit) :
    (root * root).toNat = root.toNat * root.toNat := by
  have below : root.toNat < 4294967296 := UInt64.lt_iff_toNat_lt.1 inWords
  have square : root.toNat * root.toNat < 4294967296 * 4294967296 := Nat.mul_lt_mul'' below below
  rw [UInt64.toNat_mul]
  exact Nat.mod_eq_of_lt square

/-- The root limit is where squares leave the words. -/
theorem lt_rootLimit_iff {root : UInt64} :
    root < rootLimit ↔ root.toNat * root.toNat < wordLimit := by
  have limit : wordLimit = rootLimit.toNat * rootLimit.toNat := rfl
  rw [UInt64.lt_iff_toNat_lt, limit, Nat.mul_self_lt_mul_self_iff]

/-- Where the square is a word, the next odd number is one as well. -/
theorem toNat_add_two {root : UInt64} (inWords : root < rootLimit) :
    (root + 2).toNat = root.toNat + 2 := by
  have below : root.toNat < 4294967296 := UInt64.lt_iff_toNat_lt.1 inWords
  rw [UInt64.toNat_add]
  apply Nat.mod_eq_of_lt
  exact Nat.lt_trans (Nat.add_lt_add_right below 2) (by decide)

/-! ## One candidate -/

/-- The greatest odd number whose square is a word. -/
def lastOddRoot : Nat := 4294967295

/-- The answer to a question about a candidate.  It is missing where it would be positive for a
candidate above the last square. -/
def answer? (candidate : Nat) (positive : Prop) [Decidable positive] : Option Bool :=
  if positive then
    if lastOddRoot * lastOddRoot < candidate then none else some true
  else
    some false

section Answers

variable {candidate : Nat} {positive : Prop} [Decidable positive]

theorem answer?_eq_none_iff :
    answer? candidate positive = none ↔ positive ∧ lastOddRoot * lastOddRoot < candidate := by
  rw [answer?]
  split_ifs with holds above
  · simp [holds, above]
  · simp [above]
  · simp [holds]

theorem answer?_eq_true_iff :
    answer? candidate positive = some true ↔
      positive ∧ ¬ lastOddRoot * lastOddRoot < candidate := by
  rw [answer?]
  split_ifs with holds above
  · simp [above]
  · simp [holds, above]
  · simp [holds]

theorem answer?_eq_false_iff : answer? candidate positive = some false ↔ ¬ positive := by
  rw [answer?]
  split_ifs with holds above
  · simp [holds]
  · simp [holds]
  · simp [holds]

end Answers

/-- Trial division from an odd number on is the search for the least factor, unless it has to go on
behind the last odd number whose square is a word. -/
theorem hasNoOddDivisorFrom?_eq {candidate divisor : UInt64} (odd : divisor.toNat % 2 = 1)
    (atLeastThree : 3 ≤ divisor.toNat)
    (reached : divisor.toNat ≤ lastOddRoot ∨ lastOddRoot * lastOddRoot < candidate.toNat) :
    hasNoOddDivisorFrom? candidate divisor =
      answer? candidate.toNat
        (Nat.minFacAux candidate.toNat divisor.toNat = candidate.toNat) := by
  induction divisor using hasNoOddDivisorFrom?.induct candidate with
  | case1 divisor inWords within divides =>
      rw [hasNoOddDivisorFrom?, if_pos inWords, if_pos within, if_pos divides]
      rw [UInt64.le_iff_toNat_le, toNat_mul_self inWords] at within
      have divisible : divisor.toNat ∣ candidate.toNat :=
        Nat.dvd_of_mod_eq_zero (congrArg UInt64.toNat divides)
      have smaller : divisor.toNat < candidate.toNat := by nlinarith
      rw [Nat.minFacAux, if_neg (Nat.not_lt.2 within), if_pos divisible, answer?,
        if_neg (Nat.ne_of_lt smaller)]
  | case2 divisor inWords within remains inductionHypothesis =>
      rw [hasNoOddDivisorFrom?, if_pos inWords, if_pos within, if_neg remains]
      rw [UInt64.le_iff_toNat_le, toNat_mul_self inWords] at within
      have notDivisible : ¬ divisor.toNat ∣ candidate.toNat := by
        intro divides
        apply remains
        exact UInt64.toNat_inj.1 (Nat.mod_eq_zero_of_dvd divides)
      rw [toNat_add_two inWords] at inductionHypothesis
      rw [Nat.minFacAux, if_neg (Nat.not_lt.2 within), if_neg notDivisible]
      apply inductionHypothesis
      · omega
      · omega
      · -- the last odd number was tried in vain, so its square is not the candidate
        have below : divisor.toNat < 4294967296 := UInt64.lt_iff_toNat_lt.1 inWords
        by_cases last : divisor.toNat = lastOddRoot
        · right
          rw [last] at within notDivisible
          apply Nat.lt_of_le_of_ne within
          intro square
          exact notDivisible (square ▸ Nat.dvd_mul_right lastOddRoot lastOddRoot)
        · left
          simp only [lastOddRoot] at last ⊢
          omega
  | case3 divisor inWords beyond =>
      rw [hasNoOddDivisorFrom?, if_pos inWords, if_neg beyond]
      rw [UInt64.le_iff_toNat_le, toNat_mul_self inWords, Nat.not_le] at beyond
      have below : divisor.toNat < 4294967296 := UInt64.lt_iff_toNat_lt.1 inWords
      have notAbove : divisor.toNat ≤ lastOddRoot := Nat.le_of_lt_succ below
      have square : divisor.toNat * divisor.toNat ≤ lastOddRoot * lastOddRoot :=
        Nat.mul_le_mul notAbove notAbove
      have compared : ¬ lastOddRoot * lastOddRoot < candidate.toNat :=
        Nat.not_lt.2 (Nat.le_trans (Nat.le_of_lt beyond) square)
      rw [Nat.minFacAux, if_pos beyond, answer?, if_pos rfl, if_neg compared]
  | case4 divisor outOfWords =>
      rw [hasNoOddDivisorFrom?, if_neg outOfWords]
      have square : wordLimit ≤ divisor.toNat * divisor.toNat :=
        Nat.not_lt.1 (mt lt_rootLimit_iff.2 outOfWords)
      have beyond : candidate.toNat < divisor.toNat * divisor.toNat :=
        Nat.lt_of_lt_of_le candidate.toNat_lt square
      have above : ¬ divisor.toNat ≤ lastOddRoot := by
        intro notAbove
        apply outOfWords
        exact UInt64.lt_iff_toNat_lt.2 (Nat.lt_succ_of_le notAbove)
      rw [Nat.minFacAux, if_pos beyond, answer?, if_pos rfl, if_pos (reached.resolve_left above)]

/-- What is answered about a word is whether it is prime, and the primes above the last square stay
without an answer. -/
theorem isPrime?_eq {candidate : Nat} (inWords : candidate < wordLimit) :
    isPrime? candidate = answer? candidate candidate.Prime := by
  have small : candidate < 4 → ¬ lastOddRoot * lastOddRoot < candidate := by
    intro less above
    exact Nat.lt_irrefl 4 (Nat.lt_trans (Nat.lt_trans (by decide) above) less)
  rw [isPrime?]
  by_cases tiny : candidate < 2
  · have composite : ¬ candidate.Prime := fun isPrime => Nat.not_le.2 tiny isPrime.two_le
    rw [if_pos tiny, answer?, if_neg composite]
  · rw [if_neg tiny]
    by_cases least : candidate < 4
    · have isPrime : candidate.Prime := by
        have twoOrThree : candidate = 2 ∨ candidate = 3 := by omega
        rcases twoOrThree with rfl | rfl
        · exact Nat.prime_two
        · exact Nat.prime_three
      rw [if_pos least, answer?, if_pos isPrime, if_neg (small least)]
    · rw [if_neg least]
      by_cases even : candidate % 2 = 0
      · have composite : ¬ candidate.Prime := by
          intro isPrime
          have isTwo : candidate = 2 := isPrime.eq_two_or_odd.resolve_right (by omega)
          omega
        rw [if_pos even, answer?, if_neg composite]
      · have number : candidate.toUInt64.toNat = candidate := Nat.mod_eq_of_lt inWords
        have odd : ¬ 2 ∣ candidate := fun divides => even (Nat.mod_eq_zero_of_dvd divides)
        have prime_iff : candidate.Prime ↔ Nat.minFacAux candidate 3 = candidate := by
          rw [Nat.prime_def_minFac, Nat.minFac_eq, if_neg odd]
          exact and_iff_right (Nat.le_of_not_lt tiny)
        rw [if_neg even, if_pos inWords, hasNoOddDivisorFrom?_eq (by decide) (by decide)
          (.inl (by decide)), number]
        simp only [answer?, prime_iff]
        rfl

/-! ## Counting up -/

/-- The least prime from a number on is the one from its successor on, if the number is composite. -/
theorem isLeast_succ {candidate first : Nat} (composite : ¬ candidate.Prime)
    (isLeast : IsLeast {prime : Nat | prime.Prime ∧ candidate ≤ prime} first) :
    IsLeast {prime : Nat | prime.Prime ∧ candidate + 1 ≤ prime} first := by
  rcases isLeast with ⟨⟨isPrime, notBelow⟩, least⟩
  constructor
  · refine ⟨isPrime, Nat.lt_of_le_of_ne notBelow ?_⟩
    rintro rfl
    exact composite isPrime
  · rintro other ⟨otherPrime, above⟩
    exact least ⟨otherPrime, Nat.le_of_succ_le above⟩

/-- Counting up stops at the least prime from the start on, unless this is above the last square. -/
theorem firstPrimeFrom?_eq {candidate first : Nat} (inWords : candidate < wordLimit)
    (isLeast : IsLeast {prime : Nat | prime.Prime ∧ candidate ≤ prime} first) :
    firstPrimeFrom? candidate =
      if lastOddRoot * lastOddRoot < first then none else some first := by
  induction candidate using firstPrimeFrom?.induct with
  | case1 candidate unanswered =>
      rw [firstPrimeFrom?, unanswered]
      rw [isPrime?_eq inWords, answer?_eq_none_iff] at unanswered
      rw [if_pos (Nat.lt_of_lt_of_le unanswered.2 isLeast.1.2)]
  | case2 candidate answered =>
      rw [firstPrimeFrom?, answered]
      rw [isPrime?_eq inWords, answer?_eq_true_iff] at answered
      have same : first = candidate :=
        Nat.le_antisymm (isLeast.2 ⟨answered.1, Nat.le_refl candidate⟩) isLeast.1.2
      rw [same, if_neg answered.2]
  | case3 candidate answered inRange inductionHypothesis =>
      rw [firstPrimeFrom?, answered]
      rw [isPrime?_eq inWords, answer?_eq_false_iff] at answered
      simp only [inRange, if_true]
      exact inductionHypothesis inRange (isLeast_succ answered isLeast)
  | case4 candidate answered outOfRange =>
      rw [firstPrimeFrom?, answered]
      rw [isPrime?_eq inWords, answer?_eq_false_iff] at answered
      have beyond : wordLimit ≤ first :=
        Nat.le_trans (Nat.not_lt.1 outOfRange) (isLeast_succ answered isLeast).1.2
      have above : lastOddRoot * lastOddRoot < first := Nat.lt_of_lt_of_le (by decide) beyond
      simp only [outOfRange, if_false]
      rw [if_pos above]

theorem ceilingPrime?_eq {bound first : Nat} (inWords : bound < wordLimit)
    (isLeast : IsLeast {prime : Nat | prime.Prime ∧ bound ≤ prime} first) :
    ceilingPrime? bound = if lastOddRoot * lastOddRoot < first then none else some first := by
  apply firstPrimeFrom?_eq (Nat.max_lt.2 ⟨inWords, by decide⟩)
  rcases isLeast with ⟨⟨isPrime, notBelow⟩, least⟩
  constructor
  · exact ⟨isPrime, Nat.max_le.2 ⟨notBelow, isPrime.two_le⟩⟩
  · rintro other ⟨otherPrime, above⟩
    exact least ⟨otherPrime, (Nat.max_le.1 above).1⟩

/-! ## The primes of the words -/

/--
What is answered about a word is whether it is prime, and the words without an answer are the primes
above the square of the last odd root.  The least prime from a word on is found, unless it is one of
these or lies behind the words.
-/
theorem primes_inWords (word : Nat) (inWords : word < wordLimit) :
    (∀ answer, isPrime? word = some answer → (answer = true ↔ word.Prime)) ∧
      (isPrime? word = none ↔ word.Prime ∧ lastOddRoot * lastOddRoot < word) ∧
        ∀ first, IsLeast {prime : Nat | prime.Prime ∧ word ≤ prime} first →
          ceilingPrime? word = if lastOddRoot * lastOddRoot < first then none else some first := by
  rw [isPrime?_eq inWords]
  refine ⟨?_, answer?_eq_none_iff, ?_⟩
  · intro answer answered
    cases answer with
    | true => simp [(answer?_eq_true_iff.1 answered).1]
    | false => simp [answer?_eq_false_iff.1 answered]
  · intro first isLeast
    exact ceilingPrime?_eq inWords isLeast

/-- A square that is not passed over, and the prime behind a gap of seven composite numbers. -/
theorem primes_inWords_behind_gap :
    (9409 < wordLimit ∧ isPrime? 9409 = some false ∧ ¬ Nat.Prime 9409) ∧
      90 < wordLimit ∧ IsLeast {prime : Nat | prime.Prime ∧ 90 ≤ prime} 97 ∧
        ceilingPrime? 90 = some 97 := by
  have isLeast : IsLeast {prime : Nat | prime.Prime ∧ 90 ≤ prime} 97 := by
    constructor
    · exact ⟨by norm_num, by decide⟩
    · rintro other ⟨otherPrime, above⟩
      by_contra less
      have below : other < 97 := Nat.not_le.1 less
      interval_cases other <;> revert otherPrime <;> norm_num
  have answered : isPrime? 9409 = some false := by decide +kernel
  refine ⟨⟨by decide, answered, ?_⟩, by decide, isLeast, ?_⟩
  · intro isPrime
    have right := (primes_inWords 9409 (by decide)).1 false answered
    exact Bool.false_ne_true (right.2 isPrime)
  · rw [(primes_inWords 90 (by decide)).2.2 97 isLeast, if_neg (by decide)]

/-! ## A prime without an answer -/

/-- A prime above the square of the last odd root: the successor of a product of few small primes,
with a primitive root. -/
theorem prime_aboveLastSquare : Nat.Prime 18446744069414584321 := by
  have factors : 18446744069414584321 - 1 = 2 ^ 32 * (3 * (5 * (17 * (257 * 65537)))) := by
    norm_num
  have powers : ∀ factor ∈ [2, 3, 5, 17, 257, 65537],
      (7 : ZMod 18446744069414584321) ^ ((18446744069414584321 - 1) / factor) ≠ 1 := by
    simp only [List.forall_mem_cons]
    refine ⟨?_, ?_, ?_, ?_, ?_, ?_, nofun⟩ <;> norm_num <;> reduce_mod_char <;> decide
  apply lucas_primality 18446744069414584321 (7 : ZMod 18446744069414584321)
  · reduce_mod_char
  · intro factor isPrime divides
    have same {other : Nat} (otherPrime : other.Prime) (dividesOther : factor ∣ other) :
        factor = other := (Nat.prime_dvd_prime_iff_eq isPrime otherPrime).1 dividesOther
    apply powers
    rw [factors] at divides
    simp only [isPrime.dvd_mul] at divides
    rcases divides with power | three | five | seventeen | fourth | fifth
    · simp [same Nat.prime_two (isPrime.dvd_of_dvd_pow power)]
    · simp [same Nat.prime_three three]
    · simp [same Nat.prime_five five]
    · simp [same (by norm_num) seventeen]
    · simp [same (by norm_num) fourth]
    · simp [same (by norm_num) fifth]

/-- Whether this prime is one is not answered, although it is a word, and so it is not found when
counting up from itself. -/
theorem prime_unanswered :
    18446744069414584321 < wordLimit ∧ Nat.Prime 18446744069414584321 ∧
      isPrime? 18446744069414584321 = none ∧ ceilingPrime? 18446744069414584321 = none := by
  have inWords : 18446744069414584321 < wordLimit := by decide
  have above : lastOddRoot * lastOddRoot < 18446744069414584321 := by decide
  refine ⟨inWords, prime_aboveLastSquare, ?_, ?_⟩
  · rw [isPrime?_eq inWords]
    exact answer?_eq_none_iff.2 ⟨prime_aboveLastSquare, above⟩
  · rw [ceilingPrime?_eq inWords ⟨⟨prime_aboveLastSquare, Nat.le_refl _⟩, fun _ other => other.2⟩,
      if_pos above]

end EntityQuery.Prime
