import EntityQuery.Prime
import EntityQuery.Hash.Route
import EntityQuery.Cache.Recency

/-!
# Partitioned caches

A bounded cache that is split into a prime number of partitions, about the square root of its
capacity.  The routing hash of a key decides its partition, each partition keeps its most recently
used entries, and memory is given back by dropping whole partitions, coldest first.

Every routed operation (a look-up, a write or a removal, whatever its outcome) is one tick of the
cache's clock and stamps the partition of its key; visiting all entries and counting them is not.
A partition becomes resident with its first write and stays so until it is dropped.
-/

namespace EntityQuery

/-- One partition: its entries, if it is resident, and the tick of its last routed operation. -/
structure Partition (κ ν : Type) where
  resident : Option (List (κ × ν))
  lastTouch : Nat

namespace Partition

variable {κ ν : Type}

/-- A partition that was never used. -/
def fresh : Partition κ ν := ⟨none, 0⟩

/-- The entries, most recently used first. -/
def entries (partition : Partition κ ν) : List (κ × ν) :=
  partition.resident.getD []

def revise {σ : Type} (visit : κ → ν → σ → Option ν × σ) (partition : Partition κ ν) :
    StateM σ (Partition κ ν) := fun before =>
  match partition.resident with
  | none => (partition, before)
  | some content =>
      let (kept, after) := Recency.revise visit content before
      ({ partition with resident := some kept }, after)

/-- Retain entries of a partition, counting those that leave. -/
def retain [DecidableEq κ] {σ : Type} (visit : κ → ν → σ → Option ν × σ)
    (partition : Partition κ ν) : StateM (Nat × σ) (Partition κ ν) := fun (removed, before) =>
  match partition.resident with
  | none => (partition, removed, before)
  | some content =>
      let (dropped, kept, after) := Recency.retain visit content before
      ({ partition with resident := some kept }, removed + dropped, after)

end Partition

/-- A bounded cache that is split into partitions. -/
structure PartitionedCache (κ ν : Type) where
  count : Nat
  count_pos : 0 < count
  partitions : Vector (Partition κ ν) count
  /-- The most entries that one partition holds. -/
  chunkSize : Nat
  /-- The counted look-ups. -/
  attempts : Nat
  /-- The counted look-ups that found a value. -/
  hits : Nat
  /-- The number of routed operations so far. -/
  clock : Nat

namespace PartitionedCache

variable {κ ν : Type}

/-- An empty cache for a capacity.  Capacities below the least one are rounded up to it. -/
def ofCapacity (capacity : Nat) : PartitionedCache κ ν where
  count := Prime.partitionCount capacity
  count_pos := Prime.partitionCount_pos capacity
  partitions := Vector.replicate _ .fresh
  chunkSize := max (max capacity Prime.minimumCapacity / Prime.partitionCount capacity) 1
  attempts := 0
  hits := 0
  clock := 0

/-! ## Occupancy -/

def residentCount (cache : PartitionedCache κ ν) : Nat :=
  cache.partitions.toList.countP fun partition => partition.resident.isSome

/-- All entries: by partition, and within one most recently used first. -/
def entries (cache : PartitionedCache κ ν) : List (κ × ν) :=
  cache.partitions.toList.flatMap Partition.entries

def size (cache : PartitionedCache κ ν) : Nat :=
  cache.entries.length

/-- The share of counted look-ups that found a value; zero before the first. -/
def hitRate (cache : PartitionedCache κ ν) : Float :=
  if cache.attempts = 0 then 0 else Float.ofNat cache.hits / Float.ofNat cache.attempts

/-! ## Routed operations -/

section Routing

variable [DecidableEq κ] [Routed κ]

def indexOf (cache : PartitionedCache κ ν) (key : κ) : Fin cache.count :=
  ⟨(route key).toNat % cache.count, Nat.mod_lt _ cache.count_pos⟩

def entriesFor (cache : PartitionedCache κ ν) (key : κ) : List (κ × ν) :=
  cache.partitions[cache.indexOf key].entries

/-- The value of a key, without any effect. -/
def find? (cache : PartitionedCache κ ν) (key : κ) : Option ν :=
  Recency.find? key (cache.entriesFor key)

/-- One tick of the clock: the partition of the key is stamped and its content replaced. -/
def touch (cache : PartitionedCache κ ν) (key : κ)
    (change : Option (List (κ × ν)) → Option (List (κ × ν))) : PartitionedCache κ ν :=
  let index := cache.indexOf key
  let content := change cache.partitions[index].resident
  { cache with
    partitions := cache.partitions.set index ⟨content, cache.clock⟩
    clock := cache.clock + 1 }

/-- Look a key up; a value that is found becomes the most recently used of its partition. -/
def get (cache : PartitionedCache κ ν) (key : κ) : Option ν × PartitionedCache κ ν :=
  (cache.find? key, cache.touch key (Option.map (Recency.promote key)))

/-- Look a key up and count the attempt and the hit. -/
def tryGet (cache : PartitionedCache κ ν) (key : κ) : Option ν × PartitionedCache κ ν :=
  let (found, touched) := cache.get key
  (found,
    { touched with
      attempts := touched.attempts + 1
      hits := if found.isSome then touched.hits + 1 else touched.hits })

/-- Write a key and answer the value that it replaces.  A full partition loses the entry that was
used least recently. -/
def insert (cache : PartitionedCache κ ν) (key : κ) (value : ν) :
    Option ν × PartitionedCache κ ν :=
  (cache.find? key,
    cache.touch key fun content =>
      some (Recency.put cache.chunkSize key value (content.getD [])))

/-- Write a key only if the rule admits the value that it has so far. -/
def insertIf (cache : PartitionedCache κ ν) (key : κ) (value : ν) (accepts : Option ν → Bool) :
    Bool × PartitionedCache κ ν :=
  if accepts (cache.find? key) then
    (true, (cache.insert key value).2)
  else
    (false, cache.touch key id)

def remove (cache : PartitionedCache κ ν) (key : κ) : Option ν × PartitionedCache κ ν :=
  (cache.find? key, cache.touch key (Option.map (Recency.erase key)))

end Routing

/-! ## Operations on all entries -/

/--
Visit every entry in the order of `entries`, passing a state along.  The visit keeps an entry,
perhaps with a new value, or drops it; neither recency nor stamps change.
-/
def revise {σ : Type} (cache : PartitionedCache κ ν) (visit : κ → ν → σ → Option ν × σ)
    (state : σ) : PartitionedCache κ ν × σ :=
  let (revised, finalState) := (cache.partitions.mapM (Partition.revise visit)).run state
  ({ cache with partitions := revised }, finalState)

/--
Visit every entry in the order of `entries`, passing a state along, and drop those that are not kept;
answer how many these are.  Entries leave a partition when all of it was visited, and neither recency
nor stamps change.
-/
def retain [DecidableEq κ] {σ : Type} (cache : PartitionedCache κ ν)
    (visit : κ → ν → σ → Option ν × σ) (state : σ) : Nat × PartitionedCache κ ν × σ :=
  let (revised, removed, finalState) :=
    (cache.partitions.mapM (Partition.retain visit)).run (0, state)
  (removed, { cache with partitions := revised }, finalState)

/-- Drop every partition and reset the counters of look-ups. -/
def clear (cache : PartitionedCache κ ν) : PartitionedCache κ ν :=
  { cache with
    partitions := cache.partitions.map fun partition => { partition with resident := none }
    attempts := 0
    hits := 0 }

/-- The resident partitions, coldest first: by stamp, then by index. -/
def coldest (cache : PartitionedCache κ ν) : List (Fin cache.count) :=
  let colder (left right : Fin cache.count) : Bool :=
    let leftTouch := cache.partitions[left].lastTouch
    let rightTouch := cache.partitions[right].lastTouch
    leftTouch < rightTouch || (leftTouch = rightTouch && left ≤ right)
  ((List.finRange cache.count).filter fun index =>
    cache.partitions[index].resident.isSome).mergeSort colder

/-- Drop the given number of coldest resident partitions and answer how many were dropped. -/
def reclaim (cache : PartitionedCache κ ν) (wanted : Nat) : Nat × PartitionedCache κ ν :=
  let doomed := cache.coldest.take wanted
  (doomed.length,
    { cache with
      partitions := cache.partitions.mapFinIdx fun index partition inRange =>
        if doomed.contains ⟨index, inRange⟩ then { partition with resident := none }
        else partition })

end PartitionedCache

end EntityQuery
