import Mathlib.Data.List.Nodup
import EntityQuery.Proofs.Cache.Finding

/-!
# Where cached entries are placed

A partitioned cache keeps every entry in the partition that the routing hash of its key decides, and
no key twice.  For the list of one partition this is a statement about its keys alone, so an operation
that only forgets keys respects it; the others move a key to the front, or put one there that the list
does not hold.

In a cache that is placed in this way, a key is found exactly if it is kept, with the value that it is
kept with.
-/

namespace EntityQuery

namespace Recency

variable {κ ν : Type}

/-- A visit forgets keys, but neither adds nor moves any. -/
theorem keys_revise_sublist {σ : Type} (visit : κ → ν → σ → Option ν × σ)
    (entries : List (κ × ν)) (state : σ) :
    ((revise visit entries state).1.map Prod.fst).Sublist (entries.map Prod.fst) := by
  induction entries generalizing state with
  | nil => exact List.Sublist.refl []
  | cons head rest inductionHypothesis =>
      rw [revise]
      dsimp only
      split
      · exact (inductionHypothesis _).cons_cons head.1
      · exact (inductionHypothesis _).cons head.1

/-- The entries have different keys, all of which belong here. -/
structure Placed (belongs : κ → Prop) (entries : List (κ × ν)) : Prop where
  once : (entries.map Prod.fst).Nodup
  home : ∀ key ∈ entries.map Prod.fst, belongs key

namespace Placed

variable {belongs : κ → Prop} {entries rest : List (κ × ν)} {key : κ}

theorem nil : Placed belongs ([] : List (κ × ν)) :=
  ⟨List.nodup_nil, nofun⟩

/-- Forgetting entries and changing values respects the placement. -/
theorem of_keys_sublist (placed : Placed belongs entries)
    (sublist : (rest.map Prod.fst).Sublist (entries.map Prod.fst)) : Placed belongs rest where
  once := placed.once.sublist sublist
  home other member := placed.home other (sublist.subset member)

theorem cons (placed : Placed belongs entries) (absent : key ∉ entries.map Prod.fst)
    (own : belongs key) (value : ν) : Placed belongs ((key, value) :: entries) where
  once := List.nodup_cons.2 ⟨absent, placed.once⟩
  home := List.forall_mem_cons.2 ⟨own, placed.home⟩

theorem revise {σ : Type} (placed : Placed belongs entries) (visit : κ → ν → σ → Option ν × σ)
    (state : σ) : Placed belongs (revise visit entries state).1 :=
  placed.of_keys_sublist (keys_revise_sublist visit entries state)

section Keys

variable [DecidableEq κ]

theorem erase (placed : Placed belongs entries) (key : κ) :
    Placed belongs (erase key entries) :=
  placed.of_keys_sublist (List.filter_sublist.map Prod.fst)

/-- A key that is written to the front is kept there alone. -/
theorem cons_erase (placed : Placed belongs entries) (own : belongs key) (value : ν) :
    Placed belongs ((key, value) :: Recency.erase key entries) := by
  refine (placed.erase key).cons ?_ own value
  simp [Recency.erase]

theorem promote (placed : Placed belongs entries) (own : belongs key) :
    Placed belongs (promote key entries) := by
  rw [Recency.promote]
  split
  · exact placed.cons_erase own _
  · exact placed

theorem put (placed : Placed belongs entries) (own : belongs key) (capacity : Nat) (value : ν) :
    Placed belongs (put capacity key value entries) := by
  rw [Recency.put]
  split
  · exact placed.cons_erase own value
  · rename_i missing
    have absent : key ∉ entries.map Prod.fst := by
      simpa [find?] using missing
    split
    · exact placed.cons absent own value
    · have forgotten : (entries.dropLast.map Prod.fst).Sublist (entries.map Prod.fst) :=
        (List.dropLast_sublist entries).map Prod.fst
      exact (placed.of_keys_sublist forgotten).cons (fun member => absent (forgotten.subset member))
        own value

/-- With different keys, every entry is the one that is found. -/
theorem find?_of_mem (placed : Placed belongs entries) {value : ν}
    (member : (key, value) ∈ entries) : find? key entries = some value := by
  induction entries with
  | nil => cases member
  | cons head rest inductionHypothesis =>
      obtain ⟨absent, restOnce⟩ := List.nodup_cons.1 placed.once
      rcases List.mem_cons.1 member with rfl | among
      · exact find?_cons_self key value rest
      · have different : head.1 ≠ key := by
          rintro rfl
          exact absent (List.mem_map.2 ⟨_, among, rfl⟩)
        rw [find?_cons_of_ne different]
        exact inductionHypothesis ⟨restOnce, fun other kept =>
          placed.home other (List.mem_cons_of_mem _ kept)⟩ among

end Keys

end Placed

end Recency

namespace PartitionedCache

variable {κ ν : Type} [Routed κ] {cache : PartitionedCache κ ν} {key : κ}

/-- A write that is refused touches its partition all the same. -/
theorem exists_insertIf_eq_touch [DecidableEq κ] (cache : PartitionedCache κ ν) (key : κ)
    (value : ν) (accepts : Option ν → Bool) :
    ∃ change, (cache.insertIf key value accepts).2 = cache.touch key change := by
  rw [insertIf]
  split
  · exact ⟨fun content => some (Recency.put cache.chunkSize key value (content.getD [])), rfl⟩
  · exact ⟨id, rfl⟩

/-- Every partition holds different keys, and only those that are routed to it. -/
def Placed (cache : PartitionedCache κ ν) : Prop :=
  ∀ (index : Nat) (inRange : index < cache.count),
    Recency.Placed (fun key => (cache.indexOf key).val = index) cache.partitions[index].entries

namespace Placed

theorem ofCapacity (capacity : Nat) : (ofCapacity capacity : PartitionedCache κ ν).Placed := by
  intro index inRange
  have untouched : (PartitionedCache.ofCapacity capacity : PartitionedCache κ ν).partitions[index] =
      .fresh := Vector.getElem_replicate _
  rw [untouched]
  exact .nil

/-! ## Operations on one partition -/

theorem touch (placed : cache.Placed)
    {change : Option (List (κ × ν)) → Option (List (κ × ν))}
    (respects : ∀ content : Option (List (κ × ν)),
      Recency.Placed (fun other => (cache.indexOf other).val = cache.indexOf key)
        (content.getD []) →
      Recency.Placed (fun other => (cache.indexOf other).val = cache.indexOf key)
        ((change content).getD [])) :
    (cache.touch key change).Placed := by
  intro index inRange
  by_cases same : index = cache.indexOf key
  · subst same
    have written : (cache.touch key change).partitions[(cache.indexOf key).val] =
        ⟨change cache.partitions[cache.indexOf key].resident, cache.clock⟩ :=
      Vector.getElem_set_self _
    rw [written]
    exact respects _ (placed _ inRange)
  · have unchanged : (cache.touch key change).partitions[index] = cache.partitions[index] :=
      Vector.getElem_set_ne (cache.indexOf key).isLt _ (Ne.symm same)
    rw [unchanged]
    exact placed index inRange

variable [DecidableEq κ]

theorem tryGet (placed : cache.Placed) (key : κ) : (cache.tryGet key).2.Placed := by
  apply placed.touch
  intro content before
  cases content with
  | none => exact .nil
  | some entries => exact before.promote rfl

theorem insertIf (placed : cache.Placed) (key : κ) (value : ν) (accepts : Option ν → Bool) :
    (cache.insertIf key value accepts).2.Placed := by
  rw [PartitionedCache.insertIf]
  split
  · apply placed.touch
    intro content before
    exact before.put rfl cache.chunkSize value
  · apply placed.touch
    intro content before
    exact before

theorem remove (placed : cache.Placed) (key : κ) : (cache.remove key).2.Placed := by
  apply placed.touch
  intro content before
  cases content with
  | none => exact .nil
  | some entries => exact before.erase key

omit [DecidableEq κ]

/-! ## Operations on all partitions -/

theorem revise {σ : Type} (placed : cache.Placed) (visit : κ → ν → σ → Option ν × σ) (state : σ) :
    (cache.revise visit state).1.Placed := by
  intro index inRange
  obtain ⟨before, revised⟩ := cache.entries_revise visit state index inRange
  rw [revised]
  exact (placed index inRange).revise visit before

theorem clear (cache : PartitionedCache κ ν) : cache.clear.Placed := by
  intro index inRange
  have emptied : cache.clear.partitions[index] =
      { cache.partitions[index] with resident := none } := Vector.getElem_map _ _
  rw [emptied]
  exact .nil

theorem reclaim (placed : cache.Placed) (wanted : Nat) : (cache.reclaim wanted).2.Placed := by
  intro index inRange
  have visited : (cache.reclaim wanted).2.partitions[index] =
      if (cache.coldest.take wanted).contains ⟨index, inRange⟩ then
        { cache.partitions[index] with resident := none }
      else cache.partitions[index] := Vector.getElem_mapFinIdx _
  rw [visited]
  split
  · exact .nil
  · exact placed index inRange

/-! ## Keys of the whole cache -/

theorem indexOf_eq (placed : cache.Placed) {index : Nat} (inRange : index < cache.count) {value : ν}
    (member : (key, value) ∈ cache.partitions[index].entries) :
    (cache.indexOf key).val = index :=
  (placed index inRange).home key (List.mem_map_of_mem member)

/-- No key is kept twice, in one partition or in two. -/
theorem nodup_keys (placed : cache.Placed) : (cache.entries.map Prod.fst).Nodup := by
  rw [entries, List.map_flatMap, List.nodup_flatMap]
  constructor
  · intro partition member
    obtain ⟨index, inRange, rfl⟩ := Vector.getElem_of_mem (Vector.mem_toList_iff.1 member)
    exact (placed index inRange).once
  · rw [List.pairwise_iff_getElem]
    intro first second firstInRange secondInRange before key inFirst inSecond
    rw [Vector.length_toList] at firstInRange secondInRange
    have routedFirst := (placed first firstInRange).home key (by simpa using inFirst)
    have routedSecond := (placed second secondInRange).home key (by simpa using inSecond)
    have same : first = second := routedFirst.symm.trans routedSecond
    exact absurd same (Nat.ne_of_lt before)

theorem find?_of_mem [DecidableEq κ] (placed : cache.Placed) {value : ν}
    (member : (key, value) ∈ cache.entries) : cache.find? key = some value := by
  obtain ⟨partition, present, among⟩ := mem_entries.1 member
  obtain ⟨index, inRange, rfl⟩ := Vector.getElem_of_mem present
  have routed : (cache.indexOf key).val = index := placed.indexOf_eq inRange among
  subst routed
  exact (placed _ inRange).find?_of_mem among

end Placed

end PartitionedCache

end EntityQuery
