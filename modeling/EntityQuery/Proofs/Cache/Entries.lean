import EntityQuery.Cache.Partitioned

/-!
# Where cached entries come from

A partitioned cache forgets entries at many places: an eviction, a removal, a reclaimed partition.
What matters for the results it serves is the other direction.  Every entry that an operation leaves
was there before, was just written, or is what a visit made of one.  So whatever holds of all entries
and of what is written keeps to hold of all entries.
-/

namespace EntityQuery

namespace Recency

variable {κ ν : Type} {key : κ} {value : ν} {entries : List (κ × ν)} {entry : κ × ν}

section Keys

variable [DecidableEq κ]

theorem mem_of_find? (found : find? key entries = some value) : (key, value) ∈ entries := by
  rw [find?, Option.map_eq_some_iff] at found
  obtain ⟨⟨otherKey, _⟩, present, rfl⟩ := found
  have sameKey : otherKey = key := by simpa using List.find?_some present
  exact sameKey ▸ List.mem_of_find?_eq_some present

theorem mem_of_mem_erase (member : entry ∈ erase key entries) : entry ∈ entries :=
  (List.mem_filter.1 member).1

theorem mem_of_mem_promote (member : entry ∈ promote key entries) : entry ∈ entries := by
  rw [promote] at member
  split at member
  · rename_i value found
    rcases List.mem_cons.1 member with rfl | member
    · exact mem_of_find? found
    · exact mem_of_mem_erase member
  · exact member

theorem mem_of_mem_put {capacity : Nat} (member : entry ∈ put capacity key value entries) :
    entry = (key, value) ∨ entry ∈ entries := by
  rw [put] at member
  split at member
  · exact (List.mem_cons.1 member).imp_right mem_of_mem_erase
  · split at member
    · exact List.mem_cons.1 member
    · exact (List.mem_cons.1 member).imp_right (List.dropLast_subset entries ·)

end Keys

theorem mem_of_mem_revise {σ : Type} {visit : κ → ν → σ → Option ν × σ} {state : σ}
    (member : (key, value) ∈ (revise visit entries state).1) :
    ∃ old before, (key, old) ∈ entries ∧ (visit key old before).1 = some value := by
  induction entries generalizing state with
  | nil => cases member
  | cons head rest inductionHypothesis =>
      obtain ⟨headKey, headValue⟩ := head
      have later (among : (key, value) ∈ (revise visit rest (visit headKey headValue state).2).1) :
          ∃ old before, (key, old) ∈ (headKey, headValue) :: rest ∧
            (visit key old before).1 = some value := by
        obtain ⟨old, before, present, visited⟩ := inductionHypothesis among
        exact ⟨old, before, List.mem_cons_of_mem _ present, visited⟩
      rw [revise] at member
      dsimp only at member
      split at member
      · rename_i newValue kept
        rcases List.mem_cons.1 member with same | among
        · cases same
          exact ⟨headValue, state, List.mem_cons_self, kept⟩
        · exact later among
      · exact later member

end Recency

/-- A partition without content has no entries to visit. -/
theorem Partition.entries_revise {κ ν σ : Type} (visit : κ → ν → σ → Option ν × σ)
    (partition : Partition κ ν) (state : σ) :
    ((partition.revise visit).run state).1.entries =
      (Recency.revise visit partition.entries state).1 := by
  obtain ⟨resident, lastTouch⟩ := partition
  cases resident <;> rfl

namespace PartitionedCache

variable {κ ν : Type} {cache : PartitionedCache κ ν} {entry : κ × ν}

theorem mem_entries :
    entry ∈ cache.entries ↔ ∃ partition ∈ cache.partitions, entry ∈ partition.entries := by
  simp [entries]

theorem notMem_entries_ofCapacity (capacity : Nat) :
    entry ∉ (ofCapacity capacity : PartitionedCache κ ν).entries := by
  rw [mem_entries]
  rintro ⟨partition, member, present⟩
  have untouched : partition = .fresh := (Vector.mem_replicate.1 member).2
  rw [untouched] at present
  cases present

section Routing

variable [Routed κ] {key : κ} {value : ν}

theorem mem_of_mem_entriesFor (member : entry ∈ cache.entriesFor key) : entry ∈ cache.entries :=
  mem_entries.2 ⟨_, Vector.getElem_mem _, member⟩

/-- A touch changes the entries of one partition alone. -/
theorem mem_of_mem_touch (change : Option (List (κ × ν)) → Option (List (κ × ν)))
    (member : entry ∈ (cache.touch key change).entries) :
    entry ∈ cache.entries ∨
      entry ∈ (change cache.partitions[cache.indexOf key].resident).getD [] := by
  obtain ⟨partition, present, among⟩ := mem_entries.1 member
  change partition ∈ cache.partitions.set (cache.indexOf key) _ at present
  rcases Vector.mem_or_eq_of_mem_set present with unchanged | rfl
  · exact .inl (mem_entries.2 ⟨partition, unchanged, among⟩)
  · exact .inr among

/-- A touch that at most forgets entries of its partition forgets entries of the cache. -/
theorem mem_of_mem_touch_map {change : List (κ × ν) → List (κ × ν)}
    (forgets : ∀ content, ∀ entry ∈ change content, entry ∈ content)
    (member : entry ∈ (cache.touch key (Option.map change)).entries) : entry ∈ cache.entries := by
  rcases mem_of_mem_touch _ member with present | among
  · exact present
  · have present : entry ∈ cache.entriesFor key := by
      rw [entriesFor, Partition.entries]
      cases resident : cache.partitions[cache.indexOf key].resident with
      | none =>
          rw [resident] at among
          cases among
      | some content =>
          rw [resident] at among
          exact forgets content entry among
    exact mem_of_mem_entriesFor present

variable [DecidableEq κ]

theorem mem_of_find? (found : cache.find? key = some value) : (key, value) ∈ cache.entries :=
  mem_of_mem_entriesFor (Recency.mem_of_find? found)

theorem mem_of_tryGet {found : Option ν} {after : PartitionedCache κ ν}
    (looked : cache.tryGet key = (found, after)) :
    (∀ value ∈ found, (key, value) ∈ cache.entries) ∧
      ∀ entry ∈ after.entries, entry ∈ cache.entries := by
  cases looked
  constructor
  · intro value present
    exact mem_of_find? present
  · intro entry member
    exact mem_of_mem_touch_map (fun _ _ => Recency.mem_of_mem_promote) member

theorem mem_of_mem_insertIf {accepts : Option ν → Bool}
    (member : entry ∈ (cache.insertIf key value accepts).2.entries) :
    entry ∈ cache.entries ∨
      (entry = (key, value) ∧ accepts (cache.find? key) = true) := by
  rw [insertIf] at member
  split at member
  · rename_i accepted
    rcases mem_of_mem_touch _ member with present | written
    · exact .inl present
    · rcases Recency.mem_of_mem_put written with same | among
      · exact .inr ⟨same, accepted⟩
      · exact .inl (mem_of_mem_entriesFor among)
  · rcases mem_of_mem_touch _ member with present | among
    · exact .inl present
    · exact .inl (mem_of_mem_entriesFor among)

theorem mem_of_mem_remove (member : entry ∈ (cache.remove key).2.entries) :
    entry ∈ cache.entries :=
  mem_of_mem_touch_map (fun _ _ => Recency.mem_of_mem_erase) member

end Routing

/-! ## Operations on all entries -/

theorem notMem_entries_clear : entry ∉ cache.clear.entries := by
  rw [mem_entries]
  rintro ⟨partition, member, present⟩
  obtain ⟨before, _, rfl⟩ := Vector.mem_map.1 member
  cases present

theorem mem_of_mem_reclaim {wanted : Nat} (member : entry ∈ (cache.reclaim wanted).2.entries) :
    entry ∈ cache.entries := by
  obtain ⟨partition, present, among⟩ := mem_entries.1 member
  have visited : partition ∈ cache.partitions.mapFinIdx fun index partition inRange =>
      if (cache.coldest.take wanted).contains ⟨index, inRange⟩ then
        { partition with resident := none }
      else partition := present
  obtain ⟨index, inRange, rfl⟩ := Vector.mem_mapFinIdx.1 visited
  split at among
  · cases among
  · exact mem_entries.2 ⟨_, Vector.getElem_mem inRange, among⟩

/-- What a stateful visit of a list leaves comes from visits of its elements. -/
theorem mem_of_mem_mapM {σ α β : Type} {visit : α → StateM σ β} {items : List α} {state : σ}
    {item : β} (member : item ∈ ((items.mapM visit).run state).1) :
    ∃ origin ∈ items, ∃ before, ((visit origin).run before).1 = item := by
  induction items generalizing state with
  | nil => cases member
  | cons head rest inductionHypothesis =>
      rw [List.mapM_cons] at member
      rcases List.mem_cons.1 member with rfl | among
      · exact ⟨head, List.mem_cons_self, state, rfl⟩
      · obtain ⟨origin, present, before, visited⟩ := inductionHypothesis among
        exact ⟨origin, List.mem_cons_of_mem head present, before, visited⟩

theorem run_toList_mapM {σ α β : Type} {count : Nat} (visit : α → StateM σ β)
    (items : Vector α count) (state : σ) :
    (items.toList.mapM visit).run state =
      (((items.mapM visit).run state).1.toList, ((items.mapM visit).run state).2) := by
  have listed : items.toList.mapM visit =
      Array.toList <$> (Vector.toArray <$> items.mapM visit) := by
    rw [Vector.toArray_mapM, Array.toList_mapM]
    rfl
  exact congrArg (fun action => action.run state) listed

theorem toList_mapM {σ α β : Type} {count : Nat} (visit : α → StateM σ β)
    (items : Vector α count) (state : σ) :
    ((items.mapM visit).run state).1.toList = ((items.toList.mapM visit).run state).1 :=
  (congrArg Prod.fst (run_toList_mapM visit items state)).symm

theorem mem_of_mem_revise {σ : Type} {visit : κ → ν → σ → Option ν × σ} {state : σ} {key : κ}
    {value : ν} (member : (key, value) ∈ (cache.revise visit state).1.entries) :
    ∃ old before, (key, old) ∈ cache.entries ∧ (visit key old before).1 = some value := by
  obtain ⟨partition, present, among⟩ := mem_entries.1 member
  have listed : partition ∈
      ((cache.partitions.mapM (Partition.revise visit)).run state).1.toList :=
    Vector.mem_toList_iff.2 present
  rw [toList_mapM] at listed
  obtain ⟨origin, originPresent, stateBefore, rfl⟩ := mem_of_mem_mapM listed
  rw [Partition.entries_revise] at among
  obtain ⟨old, before, oldPresent, visited⟩ := Recency.mem_of_mem_revise among
  exact ⟨old, before, mem_entries.2 ⟨origin, Vector.mem_toList_iff.1 originPresent, oldPresent⟩,
    visited⟩

end PartitionedCache

end EntityQuery
