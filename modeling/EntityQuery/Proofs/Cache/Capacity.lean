import Mathlib.Algebra.Order.BigOperators.Group.List
import EntityQuery.Proofs.Cache.Recall
import EntityQuery.Proofs.Sizing.Primes

/-!
# How much a partitioned cache holds

The capacity of a cache, rounded up to the least one, is divided by a prime number of partitions.
The prime is the least one whose square reaches the capacity, so it is not above the capacity, and
every partition has room for an entry at least.

Whatever operations a cache performs, its partitions stay within their share.  They hold different
keys, each in the partition that its routing hash decides.  So all of them together hold no more than
the capacity.  The look-ups that were hits are among the counted ones, and these among the operations.

Sizes, rates and visits that keep every entry change nothing, so they do not occur among the
operations.
-/

namespace EntityQuery

namespace PartitionedCache

variable {κ ν : Type}

/-- The entries of a cache are those of its partitions. -/
theorem size_le_of_partitions {cache : PartitionedCache κ ν} {bound : Nat}
    (within : ∀ (index : Nat) (inRange : index < cache.count),
      cache.partitions[index].entries.length ≤ bound) : cache.size ≤ cache.count * bound := by
  have each : ∀ length ∈ cache.partitions.toList.map fun partition => partition.entries.length,
      length ≤ bound := by
    intro length member
    rcases List.mem_map.1 member with ⟨partition, present, rfl⟩
    rcases Vector.getElem_of_mem (Vector.mem_toList_iff.1 present) with ⟨index, inRange, rfl⟩
    exact within index inRange
  calc
    cache.size = (cache.partitions.toList.map fun partition => partition.entries.length).sum :=
      List.length_flatMap
    _ ≤ (cache.partitions.toList.map fun partition => partition.entries.length).length • bound :=
      List.sum_le_card_nsmul _ bound each
    _ = cache.count * bound := by
      rw [List.length_map, Vector.length_toList, smul_eq_mul]

variable [DecidableEq κ] [Routed κ]

/-! ## One operation -/

/-- A cache is laid out as it was at the start, and its entries are in their places. -/
structure LaidOut (start cache : PartitionedCache κ ν) : Prop where
  placed : cache.Placed
  count_eq : cache.count = start.count
  chunkSize_eq : cache.chunkSize = start.chunkSize

theorem LaidOut.perform {start cache : PartitionedCache κ ν} (laidOut : LaidOut start cache)
    (operation : Operation κ ν) : LaidOut start (cache.perform operation) := by
  constructor
  case placed => exact laidOut.placed.perform operation
  case count_eq => exact (cache.count_perform operation).trans laidOut.count_eq
  case chunkSize_eq => exact (cache.chunkSize_perform operation).trans laidOut.chunkSize_eq

/-- Every hit was counted as an attempt, and no more attempts than operations were counted. -/
def Counts (cache : PartitionedCache κ ν) (operations : Nat) : Prop :=
  cache.hits ≤ cache.attempts ∧ cache.attempts ≤ operations

/-- Only a counted look-up counts, and it counts at most one hit for its attempt. -/
theorem Counts.perform {cache : PartitionedCache κ ν} {operations : Nat}
    (counts : cache.Counts operations) (operation : Operation κ ν) :
    (cache.perform operation).Counts (operations + 1) := by
  have unchanged : cache.Counts (operations + 1) := ⟨counts.1, Nat.le_succ_of_le counts.2⟩
  cases operation with
  | insertIf key value accepts =>
      rcases cache.exists_insertIf_eq_touch key value accepts with ⟨change, touched⟩
      rw [PartitionedCache.perform, touched]
      exact unchanged
  | tryGet key =>
      constructor
      · change (if (cache.find? key).isSome then cache.hits + 1 else cache.hits) ≤
          cache.attempts + 1
        split
        · exact Nat.succ_le_succ counts.1
        · exact Nat.le_succ_of_le counts.1
      · exact Nat.succ_le_succ counts.2
  | clear => exact ⟨Nat.le_refl 0, Nat.zero_le _⟩
  | insert | get | remove | retain | reclaim => exact unchanged

/-! ## Runs of operations -/

theorem LaidOut.performAll {start cache : PartitionedCache κ ν} (laidOut : LaidOut start cache)
    (operations : List (Operation κ ν)) : LaidOut start (cache.performAll operations) := by
  induction operations generalizing cache with
  | nil => exact laidOut
  | cons first later inductionHypothesis => exact inductionHypothesis (laidOut.perform first)

theorem Counts.performAll {cache : PartitionedCache κ ν} {before : Nat}
    (counts : cache.Counts before) (operations : List (Operation κ ν)) :
    (cache.performAll operations).Counts (before + operations.length) := by
  induction operations generalizing cache before with
  | nil => exact counts
  | cons first later inductionHypothesis =>
      have rest := inductionHypothesis (counts.perform first)
      rw [Nat.add_right_comm] at rest
      exact rest

/-- What bounds the content of a cache and its counters. -/
structure Within (cache : PartitionedCache κ ν) (capacity share operations : Nat) : Prop where
  room : ∀ (index : Nat) (inRange : index < cache.count),
    cache.partitions[index].entries.length ≤ share
  different : (cache.entries.map Prod.fst).Nodup
  home : ∀ (index : Nat) (inRange : index < cache.count),
    ∀ entry ∈ cache.partitions[index].entries, (route entry.1).toNat % cache.count = index
  size_le : cache.size ≤ capacity
  hits_le : cache.hits ≤ cache.attempts
  attempts_le : cache.attempts ≤ operations

/-- A partition is bounded as the one of any of its keys is. -/
theorem room_performAll (capacity : Nat) (operations : List (Operation κ ν)) (index : Nat)
    (inRange : index < ((ofCapacity capacity : PartitionedCache κ ν).performAll operations).count) :
    (((ofCapacity capacity : PartitionedCache κ ν).performAll
      operations).partitions[index].entries).length ≤
        (ofCapacity capacity : PartitionedCache κ ν).chunkSize := by
  cases listed : ((ofCapacity capacity : PartitionedCache κ ν).performAll
      operations).partitions[index].entries with
  | nil => exact Nat.zero_le _
  | cons first rest =>
      rcases recalls_performAll capacity operations first.1 with ⟨recalls, placed, sameShare⟩
      have own := placed.indexOf_eq inRange (listed ▸ List.mem_cons_self : (first.1, first.2) ∈ _)
      have bounded := recalls.bounded
      subst own
      rw [sameShare] at bounded
      rw [← listed]
      exact bounded

/--
The capacity law.  The number of partitions is the least prime whose square reaches the capacity,
found without leaving the words.  The share of a partition is the quotient, which is not zero.  And
after any operations no partition holds more than its share, nor the cache more than the capacity.
-/
theorem within_performAll (capacity : Nat) (inWords : capacity < Prime.wordLimit)
    (operations : List (Operation κ ν)) :
    let size := max capacity Prime.minimumCapacity
    let count := Prime.partitionCount capacity
    let start : PartitionedCache κ ν := ofCapacity capacity
    let final := start.performAll operations
    Prime.Divides size count ∧ 1 ≤ size / count ∧ count * (size / count) ≤ size ∧
      start.chunkSize = size / count ∧ final.chunkSize = size / count ∧ final.count = count ∧
        final.Within size (size / count) operations.length := by
  intro size count start final
  have divides : Prime.Divides size count := Prime.divides_partitionCount inWords
  have share : 1 ≤ size / count :=
    (Nat.one_le_div_iff divides.prime.pos).2 divides.notAbove
  have product : count * (size / count) ≤ size := Nat.mul_div_le size count
  have startShare : start.chunkSize = size / count := Nat.max_eq_left share
  have laidOut : LaidOut start final :=
    LaidOut.performAll ⟨.ofCapacity capacity, rfl, rfl⟩ operations
  have finalCount : final.count = count := laidOut.count_eq
  have room (index : Nat) (inRange : index < final.count) :
      final.partitions[index].entries.length ≤ size / count :=
    startShare ▸ room_performAll capacity operations index inRange
  have finalShare : final.chunkSize = size / count := laidOut.chunkSize_eq.trans startShare
  have counts : final.Counts operations.length := by
    have counted : final.Counts (0 + operations.length) :=
      Counts.performAll ⟨Nat.le_refl 0, Nat.le_refl 0⟩ operations
    rwa [Nat.zero_add] at counted
  refine ⟨divides, share, product, startShare, finalShare, finalCount, ?_⟩
  constructor
  case room => exact room
  case different => exact laidOut.placed.nodup_keys
  case home =>
    intro index inRange entry member
    exact laidOut.placed.indexOf_eq inRange member
  case size_le =>
    calc
      final.size ≤ final.count * (size / count) := size_le_of_partitions room
      _ = count * (size / count) := by rw [finalCount]
      _ ≤ size := product
  case hits_le => exact counts.1
  case attempts_le => exact counts.2

/-- Twenty entries in five partitions: the fifth key of one partition evicts another. -/
theorem within_performAll_after_eviction :
    let start : PartitionedCache UInt8 Nat := ofCapacity 20
    let operations : List (Operation UInt8 Nat) :=
      [.insert 3 30, .insert 8 80, .tryGet 3, .insert 11 110, .insert 12 120, .insert 13 130,
        .tryGet 8]
    let final := start.performAll operations
    (20 < Prime.wordLimit ∧ Prime.partitionCount 20 = 5 ∧
      final.Within 20 4 operations.length) ∧
        final.size = 4 ∧ final.hits = 1 ∧ final.attempts = 2 := by
  intro start operations final
  have inWords : 20 < Prime.wordLimit := by decide
  have counted : Prime.partitionCount 20 = 5 := by decide +kernel
  constructor
  · rcases within_performAll (κ := UInt8) (ν := Nat) 20 inWords operations with
      ⟨_, _, _, _, _, _, within⟩
    rw [counted] at within
    exact ⟨inWords, counted, within⟩
  · decide +kernel

end PartitionedCache

end EntityQuery
