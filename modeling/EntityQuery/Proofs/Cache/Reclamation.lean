import EntityQuery.Proofs.Cache.Capacity

/-!
# Which partitions are given back

Every routed operation stamps the partition of its key with the tick of the clock and moves the
clock on.  Two partitions that are resident were written, so both are stamped, and since an operation
is routed to one partition alone their stamps differ: the smaller one belongs to the partition whose
last routed operation is the earlier one.  That a partition was dropped and written again since, was
emptied by removals, or was only asked in vain makes no difference, and visits of all entries leave
the clock and the stamps alone.

A reclamation drops the partitions with the smallest stamps, as many as are wanted or all that are
resident.  Whatever else there is in a cache stays as it was.
-/

namespace EntityQuery

namespace Partition

variable {κ ν σ : Type} (visit : κ → ν → σ → Option ν × σ) (partition : Partition κ ν) (state : σ)

theorem lastTouch_revise :
    ((partition.revise visit).run state).1.lastTouch = partition.lastTouch := by
  obtain ⟨resident, lastTouch⟩ := partition
  cases resident <;> rfl

theorem isSome_resident_revise :
    ((partition.revise visit).run state).1.resident.isSome = partition.resident.isSome := by
  obtain ⟨resident, lastTouch⟩ := partition
  cases resident <;> rfl

end Partition

namespace PartitionedCache

variable {κ ν : Type}

/-! ## Resident partitions by their stamps -/

section Stamps

variable {cache : PartitionedCache κ ν} {wanted : Nat}

/-- Whether there is a partition of this index that is resident. -/
def residentAt (cache : PartitionedCache κ ν) (index : Nat) : Bool :=
  cache.partitions[index]?.any fun partition => partition.resident.isSome

theorem residentAt_of_fin (cache : PartitionedCache κ ν) (index : Fin cache.count) :
    cache.residentAt index = (cache.partitions.get index).resident.isSome := by
  have present : cache.partitions[index.val]? = some cache.partitions[index.val] :=
    Vector.getElem?_eq_getElem index.isLt
  rw [residentAt, present]
  rfl

theorem mem_coldest (cache : PartitionedCache κ ν) {index : Fin cache.count} :
    index ∈ cache.coldest ↔ cache.residentAt index = true := by
  have listed : index ∈ cache.coldest ↔ cache.partitions[index].resident.isSome = true := by
    simp [coldest]
  rw [residentAt_of_fin, listed]
  rfl

theorem nodup_coldest (cache : PartitionedCache κ ν) : cache.coldest.Nodup :=
  (List.mergeSort_perm _ _).nodup_iff.2 ((List.nodup_finRange _).filter _)

/-- The resident partitions are listed by their stamps. -/
theorem coldest_pairwise (cache : PartitionedCache κ ν) :
    cache.coldest.Pairwise fun cold warm =>
      (cache.partitions.get cold).lastTouch ≤ (cache.partitions.get warm).lastTouch := by
  rw [coldest]
  refine (List.pairwise_mergeSort ?_ ?_ _).imp ?_
  · intro first second third
    simp only [Bool.or_eq_true, Bool.and_eq_true, decide_eq_true_eq]
    omega
  · intro first second
    simp only [Bool.or_eq_true, Bool.and_eq_true, decide_eq_true_eq]
    omega
  · intro cold warm
    simp only [Bool.or_eq_true, Bool.and_eq_true, decide_eq_true_eq]
    change _ → cache.partitions[cold].lastTouch ≤ cache.partitions[warm].lastTouch
    omega

theorem length_coldest (cache : PartitionedCache κ ν) :
    cache.coldest.length = cache.residentCount := by
  have listed : cache.partitions.toList =
      (List.finRange cache.count).map fun index => cache.partitions[index] := by
    apply List.ext_getElem
    · simp
    · intro index _ _
      simp
  rw [coldest, List.length_mergeSort, residentCount, listed, List.countP_map,
    List.countP_eq_length_filter]
  rfl

/-! ## One reclamation -/

theorem getElem?_reclaim (cache : PartitionedCache κ ν) (wanted : Nat) (index : Fin cache.count) :
    (cache.reclaim wanted).2.partitions[index.val]? =
      if index ∈ cache.coldest.take wanted then
        some { cache.partitions.get index with resident := none }
      else cache.partitions[index.val]? := by
  have visited : (cache.reclaim wanted).2.partitions[index.val] =
      if (cache.coldest.take wanted).contains index then
        { cache.partitions.get index with resident := none }
      else cache.partitions.get index := Vector.getElem_mapFinIdx _
  have present : (cache.reclaim wanted).2.partitions[index.val]? =
      some (cache.reclaim wanted).2.partitions[index.val] :=
    Vector.getElem?_eq_getElem index.isLt
  rw [present, visited]
  by_cases dropped : index ∈ cache.coldest.take wanted
  · rw [if_pos dropped, if_pos (List.contains_iff_mem.2 dropped)]
  · rw [if_neg dropped, if_neg (mt List.contains_iff_mem.1 dropped),
      Vector.getElem?_eq_getElem index.isLt]
    rfl

/-- The partitions that stay resident are those behind the dropped ones. -/
theorem residentAt_reclaim (cache : PartitionedCache κ ν) (wanted : Nat)
    (index : Fin cache.count) :
    (cache.reclaim wanted).2.residentAt index = true ↔ index ∈ cache.coldest.drop wanted := by
  have split : index ∈ cache.coldest ↔
      index ∈ cache.coldest.take wanted ∨ index ∈ cache.coldest.drop wanted := by
    rw [← List.mem_append, List.take_append_drop]
  have apart : (cache.coldest.take wanted).Disjoint (cache.coldest.drop wanted) :=
    List.disjoint_take_drop (nodup_coldest cache) (Nat.le_refl wanted)
  rw [residentAt, getElem?_reclaim]
  by_cases dropped : index ∈ cache.coldest.take wanted
  · rw [if_pos dropped]
    simpa using apart dropped
  · rw [if_neg dropped, ← residentAt, ← mem_coldest cache, split]
    simp [dropped]

theorem residentCount_reclaim (cache : PartitionedCache κ ν) (wanted : Nat) :
    (cache.reclaim wanted).2.residentCount = (cache.coldest.drop wanted).length := by
  have same : (cache.reclaim wanted).2.coldest.Perm (cache.coldest.drop wanted) :=
    (List.perm_ext_iff_of_nodup (nodup_coldest (cache.reclaim wanted).2)
      ((nodup_coldest cache).sublist (List.drop_sublist wanted _))).2 fun index =>
        (mem_coldest (cache.reclaim wanted).2).trans (residentAt_reclaim cache wanted index)
  exact (length_coldest _).symm.trans same.length_eq

/-- A reclamation makes no partition resident. -/
theorem residentAt_of_reclaim {index : Nat}
    (stays : (cache.reclaim wanted).2.residentAt index = true) : cache.residentAt index = true := by
  rcases (Option.any_eq_true _ _).1 stays with ⟨_, present, _⟩
  have inRange : index < cache.count := (Vector.getElem?_eq_some_iff.1 present).1
  have behind := (residentAt_reclaim cache wanted ⟨index, inRange⟩).1 stays
  exact (mem_coldest cache).1 (List.mem_of_mem_drop behind)

/-- A partition that is dropped is stamped no later than one that stays resident. -/
theorem lastTouch_le_of_dropped {cold warm : Nat} {dropped kept : Partition κ ν}
    (present : cache.partitions[cold]? = some dropped)
    (resident : dropped.resident.isSome = true)
    (leaves : (cache.reclaim wanted).2.residentAt cold = false)
    (presentKept : cache.partitions[warm]? = some kept)
    (stays : (cache.reclaim wanted).2.residentAt warm = true) :
    dropped.lastTouch ≤ kept.lastTouch := by
  rcases Vector.getElem?_eq_some_iff.1 present with ⟨coldInRange, rfl⟩
  rcases Vector.getElem?_eq_some_iff.1 presentKept with ⟨warmInRange, rfl⟩
  have listed := coldest_pairwise cache
  rw [← List.take_append_drop wanted cache.coldest, List.pairwise_append] at listed
  have notBehind : (⟨cold, coldInRange⟩ : Fin cache.count) ∉ cache.coldest.drop wanted :=
    fun behind => Bool.false_ne_true
      (leaves.symm.trans ((residentAt_reclaim cache wanted ⟨cold, coldInRange⟩).2 behind))
  have among : (⟨cold, coldInRange⟩ : Fin cache.count) ∈
      cache.coldest.take wanted ++ cache.coldest.drop wanted := by
    rw [List.take_append_drop, mem_coldest, residentAt_of_fin]
    exact resident
  exact listed.2.2 ⟨cold, coldInRange⟩ ((List.mem_append.1 among).resolve_right notBehind)
    ⟨warm, warmInRange⟩ ((residentAt_reclaim cache wanted ⟨warm, warmInRange⟩).1 stays)

/-- A partition that is not dropped is left as it is. -/
theorem getElem?_reclaim_of_kept {index : Nat}
    (kept : cache.residentAt index = true → (cache.reclaim wanted).2.residentAt index = true) :
    (cache.reclaim wanted).2.partitions[index]? = cache.partitions[index]? := by
  by_cases inRange : index < cache.count
  · have notDropped : (⟨index, inRange⟩ : Fin cache.count) ∉ cache.coldest.take wanted := by
      intro dropped
      have resident := (mem_coldest cache).1 (List.mem_of_mem_take dropped)
      have behind := (residentAt_reclaim cache wanted ⟨index, inRange⟩).1 (kept resident)
      exact List.disjoint_take_drop (nodup_coldest cache) (Nat.le_refl wanted) dropped behind
    exact (getElem?_reclaim cache wanted ⟨index, inRange⟩).trans (if_neg notDropped)
  · rw [Vector.getElem?_eq_none (Nat.not_lt.1 inRange)]
    exact Vector.getElem?_eq_none (Nat.not_lt.1 inRange)

end Stamps

/-! ## Positions of routed operations -/

/-- The key that an operation is routed by; an operation on all partitions has none. -/
def Operation.key? : Operation κ ν → Option κ
  | .insert key _ | .insertIf key _ _ | .get key | .tryGet key | .remove key => some key
  | .retain _ _ | .clear | .reclaim _ => none

/-- The number of routed operations. -/
def ticks (operations : List (Operation κ ν)) : Nat :=
  operations.countP fun operation => operation.key?.isSome

section Routing

variable [Routed κ]

/-- Whether an operation is routed to a partition, whatever comes of it there. -/
def Operation.routedTo (count index : Nat) (operation : Operation κ ν) : Bool :=
  operation.key?.any fun key => (route key).toNat % count = index

/-- The last of the operations that was routed to a partition has this position. -/
structure LastRouted (count index : Nat) (operations : List (Operation κ ν)) (position : Nat) :
    Prop where
  routed : operations[position]?.any (Operation.routedTo count index) = true
  noneBehind : ∀ later ∈ operations.drop (position + 1), later.routedTo count index = false

variable {count index position : Nat} {operations : List (Operation κ ν)}
  {operation : Operation κ ν}

theorem LastRouted.exists_getElem? (last : LastRouted count index operations position) :
    ∃ operation, operations[position]? = some operation ∧
      operation.routedTo count index = true :=
  (Option.any_eq_true _ _).1 last.routed

theorem LastRouted.lt_length (last : LastRouted count index operations position) :
    position < operations.length := by
  rcases last.exists_getElem? with ⟨_, present, _⟩
  exact (List.getElem?_eq_some_iff.1 present).1

theorem LastRouted.of_routed (routed : operation.routedTo count index = true)
    (operations : List (Operation κ ν)) :
    LastRouted count index (operations ++ [operation]) operations.length := by
  constructor
  case routed => simpa using routed
  case noneBehind => simp

theorem LastRouted.concat (last : LastRouted count index operations position)
    (elsewhere : operation.routedTo count index = false) :
    LastRouted count index (operations ++ [operation]) position := by
  have inFront := last.lt_length
  constructor
  case routed =>
    rw [List.getElem?_append_left inFront]
    exact last.routed
  case noneBehind =>
    intro later member
    rw [List.drop_append_of_le_length inFront] at member
    rcases List.mem_append.1 member with before | same
    · exact last.noneBehind later before
    · rw [List.mem_singleton.1 same]
      exact elsewhere

/-- No operation is routed to two partitions. -/
theorem Operation.index_eq_of_routedTo {other : Nat}
    (routed : operation.routedTo count index = true)
    (routedOther : operation.routedTo count other = true) : index = other := by
  rcases (Option.any_eq_true _ _).1 routed with ⟨key, hasKey, here⟩
  rw [routedTo, hasKey] at routedOther
  exact (of_decide_eq_true here).symm.trans (of_decide_eq_true routedOther)

theorem Operation.isSome_of_routedTo (routed : operation.routedTo count index = true) :
    operation.key?.isSome = true := by
  rcases (Option.any_eq_true _ _).1 routed with ⟨key, hasKey, _⟩
  exact Option.isSome_iff_exists.2 ⟨key, hasKey⟩

/-- A routed operation is a tick, so more of them stand before the positions behind it. -/
theorem LastRouted.ticks_take_lt (last : LastRouted count index operations position) {later : Nat}
    (before : position < later) :
    ticks (operations.take position) < ticks (operations.take later) := by
  rcases last.exists_getElem? with ⟨operation, present, routed⟩
  have next : ticks (operations.take (position + 1)) = ticks (operations.take position) + 1 := by
    rw [List.take_add_one, present, ticks, List.countP_append]
    simp [ticks, Operation.isSome_of_routedTo routed]
  have more : ticks (operations.take (position + 1)) ≤ ticks (operations.take later) :=
    (List.take_sublist_take_left before).countP_le
  omega

/-- Of two partitions, the one with the smaller stamp had its last operation earlier. -/
theorem LastRouted.lt_of_ticks_le {cold warm first later : Nat}
    (lastCold : LastRouted count cold operations first)
    (lastWarm : LastRouted count warm operations later) (different : cold ≠ warm)
    (ordered : ticks (operations.take first) ≤ ticks (operations.take later)) : first < later := by
  rcases Nat.lt_trichotomy first later with before | same | behind
  · exact before
  · subst same
    rcases lastCold.exists_getElem? with ⟨operation, present, routed⟩
    rcases lastWarm.exists_getElem? with ⟨other, presentOther, routedOther⟩
    cases present.symm.trans presentOther
    exact absurd (Operation.index_eq_of_routedTo routed routedOther) different
  · exact absurd ordered (Nat.not_le.2 (lastWarm.ticks_take_lt behind))

/-! ## Stamps of a run -/

/-- The clock has counted the routed operations, and a resident partition is stamped with the number
of those before its last one. -/
structure Stamped (cache : PartitionedCache κ ν) (operations : List (Operation κ ν)) : Prop where
  clock_eq : cache.clock = ticks operations
  stamp : ∀ (index : Nat) (partition : Partition κ ν), cache.partitions[index]? = some partition →
    partition.resident.isSome = true →
      ∃ position, LastRouted cache.count index operations position ∧
        partition.lastTouch = ticks (operations.take position)

variable [DecidableEq κ] {cache : PartitionedCache κ ν}

/-- What an operation does to the clock and to the stamps of the resident partitions. -/
inductive Stamping (cache after : PartitionedCache κ ν) (operation : Operation κ ν) : Prop
  /-- A routed operation stamps the partition of its key. -/
  | ticks {key : κ} {content : Option (List (κ × ν))} :
      operation.key? = some key → after.clock = cache.clock + 1 →
        (∀ index : Nat, after.partitions[index]? =
          if (cache.indexOf key).val = index then some ⟨content, cache.clock⟩
          else cache.partitions[index]?) → Stamping cache after operation
  /-- An operation on all partitions makes none resident and leaves their stamps alone. -/
  | rests :
      operation.key? = none → after.clock = cache.clock →
        (∀ (index : Nat) (partition : Partition κ ν), after.partitions[index]? = some partition →
          ∃ before, cache.partitions[index]? = some before ∧
            partition.lastTouch = before.lastTouch ∧
              (partition.resident.isSome = true → before.resident.isSome = true)) →
          Stamping cache after operation

omit [DecidableEq κ] in
theorem stamping_touch (cache : PartitionedCache κ ν) (key : κ)
    (change : Option (List (κ × ν)) → Option (List (κ × ν)))
    (hasKey : operation.key? = some key) :
    Stamping cache (cache.touch key change) operation :=
  .ticks hasKey rfl fun _ => Vector.getElem?_set (cache.indexOf key).isLt

theorem stamping_perform (cache : PartitionedCache κ ν) (operation : Operation κ ν) :
    Stamping cache (cache.perform operation) operation := by
  cases operation with
  | insert key value =>
      exact stamping_touch cache key
        (fun content => some (Recency.put cache.chunkSize key value (content.getD []))) rfl
  | insertIf key value accepts =>
      rcases cache.exists_insertIf_eq_touch key value accepts with ⟨change, touched⟩
      rw [perform, touched]
      exact stamping_touch cache key change rfl
  | get key => exact stamping_touch cache key _ rfl
  | tryGet key => exact .ticks rfl rfl fun _ => Vector.getElem?_set (cache.indexOf key).isLt
  | remove key => exact stamping_touch cache key _ rfl
  | retain keep state =>
      refine .rests rfl rfl fun index partition present => ?_
      rcases cache.getElem?_revise (Recency.retaining keep) state index with ⟨stateBefore, revised⟩
      rcases Option.map_eq_some_iff.1 (revised.symm.trans present) with ⟨before, was, same⟩
      rw [← same]
      exact ⟨before, was, before.lastTouch_revise _ _, fun stays =>
        (before.isSome_resident_revise _ _).symm.trans stays⟩
  | clear =>
      refine .rests rfl rfl fun index partition present => ?_
      rcases Option.map_eq_some_iff.1 (Vector.getElem?_map.symm.trans present) with
        ⟨before, was, same⟩
      rw [← same]
      exact ⟨before, was, rfl, fun stays => absurd stays Bool.false_ne_true⟩
  | reclaim wanted =>
      refine .rests rfl rfl fun index partition present => ?_
      have inRange : index < cache.count := (Vector.getElem?_eq_some_iff.1 present).1
      have was : cache.partitions[index]? = some cache.partitions[index] :=
        Vector.getElem?_eq_getElem inRange
      have left := (getElem?_reclaim cache wanted ⟨index, inRange⟩).symm.trans present
      refine ⟨cache.partitions[index], was, ?_⟩
      split at left
      · cases left
        exact ⟨rfl, fun stays => absurd stays Bool.false_ne_true⟩
      · cases was.symm.trans left
        exact ⟨rfl, id⟩

omit [DecidableEq κ] in
/-- A partition that an operation leaves alone keeps its last position and its stamp. -/
theorem Stamped.stamp_concat (stamped : cache.Stamped operations) {partition : Partition κ ν}
    (present : cache.partitions[index]? = some partition)
    (resident : partition.resident.isSome = true)
    (elsewhere : operation.routedTo cache.count index = false) :
    ∃ position, LastRouted cache.count index (operations ++ [operation]) position ∧
      partition.lastTouch = ticks ((operations ++ [operation]).take position) := by
  rcases stamped.stamp index partition present resident with ⟨position, last, stampedAt⟩
  refine ⟨position, last.concat elsewhere, ?_⟩
  rw [List.take_append_of_le_length (Nat.le_of_lt last.lt_length)]
  exact stampedAt

theorem Stamped.perform (stamped : cache.Stamped operations) (operation : Operation κ ν) :
    (cache.perform operation).Stamped (operations ++ [operation]) := by
  have counted : ticks (operations ++ [operation]) =
      ticks operations + ticks [operation] := List.countP_append
  cases cache.stamping_perform operation with
  | @ticks key content hasKey clock_eq stamps =>
      have one : ticks [operation] = 1 := by simp [ticks, hasKey]
      constructor
      case clock_eq => rw [clock_eq, stamped.clock_eq, counted, one]
      case stamp =>
        intro index partition present resident
        rw [cache.count_perform]
        rw [stamps] at present
        split at present
        · rename_i here
          cases present
          have routed : operation.routedTo cache.count index = true := by
            rw [Operation.routedTo, hasKey]
            exact decide_eq_true here
          refine ⟨operations.length, .of_routed routed operations, ?_⟩
          rw [List.take_left]
          exact stamped.clock_eq
        · rename_i elsewhere
          have notRouted : operation.routedTo cache.count index = false := by
            rw [Operation.routedTo, hasKey]
            exact decide_eq_false elsewhere
          exact stamped.stamp_concat present resident notRouted
  | rests hasNoKey clock_eq stamps =>
      have noTick : ticks [operation] = 0 := by simp [ticks, hasNoKey]
      constructor
      case clock_eq => rw [clock_eq, stamped.clock_eq, counted, noTick, Nat.add_zero]
      case stamp =>
        intro index partition present resident
        rw [cache.count_perform]
        rcases stamps index partition present with ⟨before, presentBefore, sameStamp, wasResident⟩
        rw [sameStamp]
        have notRouted : operation.routedTo cache.count index = false := by
          rw [Operation.routedTo, hasNoKey]
          rfl
        exact stamped.stamp_concat presentBefore (wasResident resident) notRouted

omit [DecidableEq κ] in
theorem stamped_ofCapacity (capacity : Nat) :
    (ofCapacity capacity : PartitionedCache κ ν).Stamped [] := by
  constructor
  case clock_eq => rfl
  case stamp =>
    intro index partition present resident
    have untouched : partition = .fresh :=
      (Vector.mem_replicate.1 (Vector.mem_of_getElem? present)).2
    subst untouched
    cases resident

theorem stamped_performAll (capacity : Nat) (operations : List (Operation κ ν)) :
    ((ofCapacity capacity : PartitionedCache κ ν).performAll operations).Stamped operations := by
  induction operations using List.reverseRecOn with
  | nil => exact stamped_ofCapacity capacity
  | append_singleton earlier last inductionHypothesis =>
      rw [performAll_concat]
      exact inductionHypothesis.perform last

/-! ## Reclamation after a run -/

/-- What a reclamation after some operations drops, and what it leaves. -/
structure Reclaimed (before : PartitionedCache κ ν) (operations : List (Operation κ ν))
    (wanted dropped : Nat) (after : PartitionedCache κ ν) : Prop where
  dropped_eq : dropped = min wanted before.residentCount
  residentCount_eq : after.residentCount + dropped = before.residentCount
  colder : ∀ cold warm : Nat, before.residentAt cold = true → after.residentAt cold = false →
    after.residentAt warm = true →
      ∃ first later, LastRouted before.count cold operations first ∧
        LastRouted before.count warm operations later ∧ first < later
  missing : ∀ key : κ, before.residentAt (before.indexOf key) = true →
    after.residentAt (before.indexOf key) = false →
      (after.get key).1 = none ∧ (after.tryGet key).1 = none
  kept : ∀ index : Nat, (before.residentAt index = true → after.residentAt index = true) →
    after.partitions[index]? = before.partitions[index]?
  sameCounters : after.attempts = before.attempts ∧ after.hits = before.hits
  sameClock : after.clock = before.clock
  /-- A word holds the clock as long as it holds the number of routed operations. -/
  clock_eq : before.clock = ticks operations
  clock_le : before.clock ≤ operations.length
  sameLayout : after.count = before.count ∧ after.chunkSize = before.chunkSize

omit [DecidableEq κ] in
theorem residentAt_indexOf (cache : PartitionedCache κ ν) (key : κ) :
    cache.residentAt (cache.indexOf key) = cache.holds key :=
  cache.residentAt_of_fin (cache.indexOf key)

/-- The keys of a dropped partition are missing. -/
theorem find?_reclaim_of_dropped {wanted : Nat} {key : κ} (held : cache.holds key = true)
    (dropped : (cache.reclaim wanted).2.holds key = false) :
    (cache.reclaim wanted).2.find? key = none := by
  rw [find?, entriesFor_reclaim, held, dropped]
  rfl

/--
A reclamation drops the coldest partitions.  As many are dropped as are wanted, or all that are
resident, and this is the answer.  The last operation that was routed to a dropped partition is
earlier than the one of each that stays resident.  The keys of a dropped partition are missing;
everything else is as it was.  The clock never exceeds the number of routed operations.
-/
theorem reclaim_performAll (capacity : Nat) (operations : List (Operation κ ν)) (wanted : Nat) :
    let final := (ofCapacity capacity : PartitionedCache κ ν).performAll operations
    Reclaimed final operations wanted (final.reclaim wanted).1 (final.reclaim wanted).2 := by
  intro final
  have stamped : final.Stamped operations := stamped_performAll capacity operations
  have taken : (final.reclaim wanted).1 = min wanted final.residentCount := by
    rw [← length_coldest]
    exact List.length_take
  constructor
  case dropped_eq => exact taken
  case residentCount_eq =>
    rw [taken, residentCount_reclaim, List.length_drop, length_coldest]
    omega
  case colder =>
    intro cold warm resident leaves stays
    rcases (Option.any_eq_true _ _).1 resident with ⟨dropped, presentCold, residentCold⟩
    rcases (Option.any_eq_true _ _).1 (residentAt_of_reclaim stays) with
      ⟨kept, presentWarm, residentWarm⟩
    rcases stamped.stamp cold dropped presentCold residentCold with ⟨first, lastCold, stampCold⟩
    rcases stamped.stamp warm kept presentWarm residentWarm with ⟨later, lastWarm, stampWarm⟩
    have different : cold ≠ warm := fun same =>
      Bool.false_ne_true (leaves.symm.trans (same ▸ stays))
    have ordered := lastTouch_le_of_dropped presentCold residentCold leaves presentWarm stays
    rw [stampCold, stampWarm] at ordered
    exact ⟨first, later, lastCold, lastWarm, lastCold.lt_of_ticks_le lastWarm different ordered⟩
  case missing =>
    intro key resident dropped
    have held := (final.residentAt_indexOf key).symm.trans resident
    have heldNoMore := ((final.reclaim wanted).2.residentAt_indexOf key).symm.trans dropped
    have missed := find?_reclaim_of_dropped held heldNoMore
    exact ⟨missed, missed⟩
  case kept => exact fun index kept => getElem?_reclaim_of_kept kept
  case sameCounters => exact ⟨rfl, rfl⟩
  case sameClock => rfl
  case clock_eq => exact stamped.clock_eq
  case clock_le => exact stamped.clock_eq.trans_le List.countP_le_length
  case sameLayout => exact ⟨rfl, rfl⟩

/-- A partition that is asked in vain is warmer than those that were written later, and one that a
removal emptied is dropped like any other. -/
example :
    let start : PartitionedCache UInt8 Nat := ofCapacity 20
    let operations : List (Operation UInt8 Nat) :=
      [.insert 3 30, .insert 0 50, .insert 1 10, .remove 0, .tryGet 8]
    let (dropped, after) := (start.performAll operations).reclaim 2
    dropped = 2 ∧ after.residentCount = 1 ∧ after.entries = [(3, 30)] := by
  cbv

end Routing

end PartitionedCache

end EntityQuery
