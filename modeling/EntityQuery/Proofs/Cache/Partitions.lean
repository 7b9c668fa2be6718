import EntityQuery.Proofs.Cache.Order

/-!
# What operations do to one partition

The list of a partition after one operation on the cache, for the partition of any key: it is
changed by an operation on its own keys and by one on all partitions, and stays as it is otherwise.
A visit of all partitions is one visit of all entries, in their order.
-/

namespace EntityQuery

theorem Partition.state_revise {κ ν σ : Type} (visit : κ → ν → σ → Option ν × σ)
    (partition : Partition κ ν) (state : σ) :
    ((partition.revise visit).run state).2 = (Recency.revise visit partition.entries state).2 := by
  obtain ⟨resident, lastTouch⟩ := partition
  cases resident <;> rfl

namespace PartitionedCache

variable {κ ν : Type}

theorem flatMap_entries_mapM {σ : Type} (visit : κ → ν → σ → Option ν × σ)
    (partitions : List (Partition κ ν)) (state : σ) :
    (((partitions.mapM (Partition.revise visit)).run state).1.flatMap Partition.entries,
        ((partitions.mapM (Partition.revise visit)).run state).2) =
      Recency.revise visit (partitions.flatMap Partition.entries) state := by
  induction partitions generalizing state with
  | nil => rfl
  | cons head rest inductionHypothesis =>
      rw [List.flatMap_cons, Recency.revise_append, ← Partition.entries_revise,
        ← Partition.state_revise, ← inductionHypothesis, List.mapM_cons]
      rfl

/-- A visit of all partitions is a visit of all entries. -/
theorem entries_revise_eq {σ : Type} (cache : PartitionedCache κ ν)
    (visit : κ → ν → σ → Option ν × σ) (state : σ) :
    (cache.revise visit state).1.entries = (Recency.revise visit cache.entries state).1 := by
  have listed := toList_mapM (Partition.revise visit) cache.partitions state
  have visited := flatMap_entries_mapM visit cache.partitions.toList state
  calc
    (cache.revise visit state).1.entries =
        ((cache.partitions.mapM (Partition.revise visit)).run state).1.toList.flatMap
          Partition.entries := rfl
    _ = (Recency.revise visit cache.entries state).1 := by
        rw [listed]
        exact congrArg Prod.fst visited

section Routing

variable [Routed κ] {cache : PartitionedCache κ ν} {key other : κ}

/-- Whether the partition of a key is resident. -/
def holds (cache : PartitionedCache κ ν) (key : κ) : Bool :=
  (cache.partitions.get (cache.indexOf key)).resident.isSome

theorem entriesFor_congr (together : cache.indexOf other = cache.indexOf key) :
    cache.entriesFor other = cache.entriesFor key :=
  congrArg (fun index : Fin cache.count => cache.partitions[index].entries) together

/-- A touch has its effect on the partition of its key, and on no other. -/
theorem entriesFor_touch_eq {change : Option (List (κ × ν)) → Option (List (κ × ν))}
    {effect : List (κ × ν) → List (κ × ν)}
    (acts : ∀ content, (change content).getD [] = effect (content.getD [])) (other key : κ) :
    (cache.touch other change).entriesFor key =
      if cache.indexOf other = cache.indexOf key then effect (cache.entriesFor key)
      else cache.entriesFor key := by
  split
  · rename_i together
    obtain ⟨content, before, touched⟩ := cache.entriesFor_touch other change
    have stillTogether : (cache.touch other change).indexOf other =
        (cache.touch other change).indexOf key := together
    calc
      (cache.touch other change).entriesFor key = (cache.touch other change).entriesFor other :=
        (entriesFor_congr stillTogether).symm
      _ = effect (content.getD []) := touched.trans (acts content)
      _ = effect (cache.entriesFor key) := by rw [before, entriesFor_congr together]
  · rename_i apart
    have unchanged : (cache.touch other change).partitions[(cache.indexOf key).val] =
        cache.partitions[(cache.indexOf key).val] :=
      Vector.getElem_set_ne (cache.indexOf other).isLt (cache.indexOf key).isLt
        (Fin.val_ne_of_ne apart)
    exact congrArg Partition.entries unchanged

theorem entriesFor_touch_id (cache : PartitionedCache κ ν) (other key : κ) :
    (cache.touch other id).entriesFor key = cache.entriesFor key := by
  have acts (content : Option (List (κ × ν))) : (id content).getD [] = id (content.getD []) := rfl
  exact (entriesFor_touch_eq acts other key).trans (ite_self _)

theorem entriesFor_clear (cache : PartitionedCache κ ν) (key : κ) :
    cache.clear.entriesFor key = [] := by
  have emptied : cache.clear.partitions[(cache.indexOf key).val] =
      { cache.partitions[cache.indexOf key] with resident := none } := Vector.getElem_map _ _
  exact congrArg Partition.entries emptied

/-- A reclamation drops the partition of a key if it was resident, or leaves it as it is. -/
theorem entriesFor_reclaim (cache : PartitionedCache κ ν) (wanted : Nat) (key : κ) :
    (cache.reclaim wanted).2.entriesFor key =
      if cache.holds key && !(cache.reclaim wanted).2.holds key then []
      else cache.entriesFor key := by
  have visited : (cache.reclaim wanted).2.partitions[(cache.indexOf key).val] =
      if (cache.coldest.take wanted).contains (cache.indexOf key) then
        { cache.partitions[cache.indexOf key] with resident := none }
      else cache.partitions[cache.indexOf key] := Vector.getElem_mapFinIdx _
  have held : cache.holds key = cache.partitions[cache.indexOf key].resident.isSome := rfl
  have stillHeld : (cache.reclaim wanted).2.holds key =
      ((cache.reclaim wanted).2.partitions[(cache.indexOf key).val]).resident.isSome := rfl
  have listed : (cache.reclaim wanted).2.entriesFor key =
      ((cache.reclaim wanted).2.partitions[(cache.indexOf key).val]).entries := rfl
  rw [held, stillHeld, listed, visited]
  split
  · split
    · rfl
    · rename_i vacant
      have missing : cache.partitions[cache.indexOf key].resident = none := by
        simpa using vacant
      exact (congrArg (fun content => content.getD []) missing).symm
  · rw [Bool.and_not_self]
    rfl

variable [DecidableEq κ]

theorem entriesFor_insert (cache : PartitionedCache κ ν) (written key : κ) (value : ν) :
    (cache.insert written value).2.entriesFor key =
      if cache.indexOf written = cache.indexOf key then
        Recency.put cache.chunkSize written value (cache.entriesFor key)
      else cache.entriesFor key :=
  entriesFor_touch_eq (fun _ => rfl) written key

theorem entriesFor_get (cache : PartitionedCache κ ν) (asked key : κ) :
    (cache.get asked).2.entriesFor key =
      if cache.indexOf asked = cache.indexOf key then
        Recency.promote asked (cache.entriesFor key)
      else cache.entriesFor key := by
  refine entriesFor_touch_eq (fun content => ?_) asked key
  cases content <;> rfl

theorem find?_insert_self (cache : PartitionedCache κ ν) (key : κ) (value : ν) :
    (cache.insert key value).2.find? key = some value := by
  rw [find?, entriesFor_insert, if_pos rfl]
  exact Recency.find?_put cache.chunkSize key value _

/-- A look-up moves entries, but every key is found as before. -/
theorem find?_get (cache : PartitionedCache κ ν) (asked key : κ) :
    (cache.get asked).2.find? key = cache.find? key := by
  rw [find?, entriesFor_get]
  split
  · by_cases same : asked = key
    · subst same
      exact Recency.find?_promote asked _
    · exact Recency.find?_promote_of_ne same _
  · rfl

/-- A key that is found comes to the front as if it were written again. -/
theorem entriesFor_get_of_find? {asked : κ} {value : ν} (found : cache.find? asked = some value) :
    (cache.get asked).2.entriesFor key =
      if cache.indexOf asked = cache.indexOf key then
        Recency.put cache.chunkSize asked value (cache.entriesFor key)
      else cache.entriesFor key := by
  rw [entriesFor_get]
  split
  · rename_i together
    rw [find?, entriesFor_congr together] at found
    exact Recency.promote_of_find? found cache.chunkSize
  · rfl

theorem entriesFor_get_of_missing {asked : κ} (missing : cache.find? asked = none) :
    (cache.get asked).2.entriesFor key = cache.entriesFor key := by
  rw [entriesFor_get]
  split
  · rename_i together
    rw [find?, entriesFor_congr together] at missing
    exact Recency.promote_of_missing missing
  · rfl

theorem entriesFor_remove (cache : PartitionedCache κ ν) (removed key : κ) :
    (cache.remove removed).2.entriesFor key =
      if cache.indexOf removed = cache.indexOf key then
        Recency.erase removed (cache.entriesFor key)
      else cache.entriesFor key := by
  refine entriesFor_touch_eq (fun content => ?_) removed key
  cases content <;> rfl

theorem find?_remove (cache : PartitionedCache κ ν) (removed key : κ) :
    (cache.remove removed).2.find? key =
      if decide (removed = key) then none else cache.find? key := by
  rw [find?, entriesFor_remove]
  by_cases same : removed = key
  · subst same
    rw [if_pos rfl, decide_eq_true rfl]
    exact Recency.find?_erase_self removed _
  · rw [decide_eq_false same]
    split
    · exact Recency.find?_erase_of_ne same _
    · rfl

theorem Placed.insert (placed : cache.Placed) (key : κ) (value : ν) :
    (cache.insert key value).2.Placed := by
  apply placed.touch
  intro content before
  exact before.put rfl cache.chunkSize value

theorem Placed.mem_iff (placed : cache.Placed) {value : ν} :
    (key, value) ∈ cache.entries ↔ cache.find? key = some value :=
  ⟨placed.find?_of_mem, mem_of_find?⟩

/-- A write costs at most one other key its entry, and then one of the same partition. -/
theorem exists_lost_insert (placed : cache.Placed) (key : κ) (value : ν) :
    ∃ lost : Option κ,
      (∀ other ∈ lost, other ≠ key ∧ cache.indexOf other = cache.indexOf key) ∧
        ∀ other, other ≠ key → (cache.insert key value).2.find? other =
          if lost = some other then none else cache.find? other := by
  have here := placed _ (cache.indexOf key).isLt
  rcases Recency.exists_lost_put here.once cache.chunkSize key value with ⟨lost, among, others⟩
  have together : ∀ other ∈ lost, cache.indexOf other = cache.indexOf key :=
    fun other isLost => Fin.ext (here.home other (among other isLost).2)
  refine ⟨lost, fun other isLost => ⟨(among other isLost).1, together other isLost⟩, ?_⟩
  intro other different
  rw [find?, find?, entriesFor_insert]
  by_cases same : cache.indexOf key = cache.indexOf other
  · rw [if_pos same, ← entriesFor_congr same]
    exact others other different
  · have notLost : lost ≠ some other := fun isLost => same (together other isLost).symm
    rw [if_neg same, if_neg notLost]

/-- A key is found in its partition exactly as it is found among all entries. -/
theorem Placed.find?_entries (placed : cache.Placed) (key : κ) :
    Recency.find? key cache.entries = cache.find? key := by
  have everywhere : Recency.Placed (fun _ => True) cache.entries :=
    ⟨placed.nodup_keys, fun _ _ => trivial⟩
  ext value
  constructor
  · exact fun found => placed.find?_of_mem (Recency.mem_of_find? found)
  · exact fun found => everywhere.find?_of_mem (mem_of_find? found)

theorem find?_retaining {σ : Type} (placed : cache.Placed) (keep : κ → ν → σ → Bool × σ)
    (state : σ) (key : κ) :
    (cache.revise (Recency.retaining keep) state).1.find? key =
      if Recency.rejects keep key cache.entries state then none else cache.find? key := by
  rw [← (placed.revise _ state).find?_entries, ← placed.find?_entries, entries_revise_eq]
  exact Recency.find?_retaining keep placed.nodup_keys state

end Routing

end PartitionedCache

end EntityQuery
