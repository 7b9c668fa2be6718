import Mathlib.Data.List.TakeWhile
import EntityQuery.Proofs.Cache.Recall

/-!
# Visits that retain entries

A visit passes a state along and keeps an entry, perhaps with a new value, or drops it.  It comes to
every entry once, in the order of the entries, and finds the state that the entries in front of it
left.  With different keys this state can be said of an entry by its key alone, so a visit of the
whole cache is a map on the content of each partition.

The entries that are dropped leave a partition when all of it was visited.  They are looked up again
by their keys then, and since no key occurs twice, this takes out the entries that were dropped and
no others.  So retaining is a visit that counts what it drops, and neither what stays where it was
nor any stamp tells that there was a visit.
-/

namespace EntityQuery

/-! ## Visits of one partition -/

namespace Recency

variable {κ ν σ : Type} {entries front : List (κ × ν)} {key : κ} {value : ν}

/-- The state that is left when the entries were visited one after another. -/
def stateAfter (visit : κ → ν → σ → Option ν × σ) (entries : List (κ × ν)) (state : σ) : σ :=
  entries.foldl (fun before entry => (visit entry.1 entry.2 before).2) state

theorem stateAfter_append (visit : κ → ν → σ → Option ν × σ) (front back : List (κ × ν))
    (state : σ) :
    stateAfter visit (front ++ back) state = stateAfter visit back (stateAfter visit front state) :=
  List.foldl_append

/-- A visit that raises a measure at some entries raises it once for each of them. -/
theorem measure_stateAfter (visit : κ → ν → σ → Option ν × σ) (measure : σ → Nat)
    {counted : κ × ν → Bool}
    (step : ∀ entry state, measure (visit entry.1 entry.2 state).2 =
      measure state + if counted entry then 1 else 0) (entries : List (κ × ν)) (state : σ) :
    measure (stateAfter visit entries state) = measure state + entries.countP counted := by
  induction entries generalizing state with
  | nil => rfl
  | cons head rest inductionHypothesis =>
      rw [List.countP_cons, Nat.add_comm (rest.countP counted), ← Nat.add_assoc, ← step]
      exact inductionHypothesis _

variable [DecidableEq κ]

/-- The state in which a visit of the entries comes to a key. -/
def stateAt (visit : κ → ν → σ → Option ν × σ) (key : κ) (entries : List (κ × ν)) (state : σ) :
    σ :=
  stateAfter visit (entries.takeWhile fun entry => entry.1 ≠ key) state

/-- What a visit of the entries leaves of one of them, if it keeps it. -/
def left? (visit : κ → ν → σ → Option ν × σ) (entries : List (κ × ν)) (state : σ)
    (entry : κ × ν) : Option (κ × ν) :=
  (visit entry.1 entry.2 (stateAt visit entry.1 entries state)).1.map fun value => (entry.1, value)

theorem stateAt_append_of_mem (visit : κ → ν → σ → Option ν × σ)
    (member : key ∈ front.map Prod.fst) (back : List (κ × ν)) (state : σ) :
    stateAt visit key (front ++ back) state = stateAt visit key front state := by
  have stops : (front.takeWhile fun entry => entry.1 ≠ key).length ≠ front.length := by
    intro all
    rcases List.mem_map.1 member with ⟨entry, present, same⟩
    have whole := List.takeWhile_eq_self_iff.1 ((List.takeWhile_prefix _).eq_of_length all)
    exact of_decide_eq_true (whole entry present) same
  rw [stateAt, List.takeWhile_append, if_neg stops]
  rfl

theorem stateAt_append_of_notMem (visit : κ → ν → σ → Option ν × σ)
    (absent : key ∉ front.map Prod.fst) (back : List (κ × ν)) (state : σ) :
    stateAt visit key (front ++ back) state =
      stateAt visit key back (stateAfter visit front state) := by
  have different : ∀ entry ∈ front, decide (entry.1 ≠ key) = true := fun entry member =>
    decide_eq_true fun same => absent (List.mem_map.2 ⟨entry, member, same⟩)
  rw [stateAt, List.takeWhile_append_of_pos different, stateAfter_append]
  rfl

theorem left?_append_of_mem (visit : κ → ν → σ → Option ν × σ) {entry : κ × ν}
    (member : entry ∈ front) (back : List (κ × ν)) (state : σ) :
    left? visit (front ++ back) state entry = left? visit front state entry := by
  rw [left?, stateAt_append_of_mem visit (List.mem_map_of_mem member)]
  rfl

/-- With different keys, the entries behind do not depend on those in front but for the state. -/
theorem left?_append_of_mem_back (visit : κ → ν → σ → Option ν × σ) (front : List (κ × ν))
    {back : List (κ × ν)} (once : ((front ++ back).map Prod.fst).Nodup) {entry : κ × ν}
    (member : entry ∈ back) (state : σ) :
    left? visit (front ++ back) state entry =
      left? visit back (stateAfter visit front state) entry := by
  rw [List.map_append, List.nodup_append] at once
  have absent : entry.1 ∉ front.map Prod.fst := fun inFront =>
    once.2.2 _ inFront _ (List.mem_map_of_mem member) rfl
  rw [left?, stateAt_append_of_notMem visit absent]
  rfl

theorem left?_head (visit : κ → ν → σ → Option ν × σ) (head : κ × ν) (rest : List (κ × ν))
    (state : σ) :
    left? visit (head :: rest) state head =
      (visit head.1 head.2 state).1.map fun value => (head.1, value) := by
  have here : stateAt visit head.1 (head :: rest) state = state := by
    rw [stateAt, List.takeWhile_cons_of_neg (by simp)]
    rfl
  rw [left?, here]

theorem left?_rest (visit : κ → ν → σ → Option ν × σ) {head : κ × ν} {rest : List (κ × ν)}
    (once : ((head :: rest).map Prod.fst).Nodup) (state : σ) :
    ∀ entry ∈ rest, left? visit (head :: rest) state entry =
      left? visit rest (visit head.1 head.2 state).2 entry :=
  fun _ member => left?_append_of_mem_back visit [head] once member state

/-- A visit comes to every entry once and leaves of each what its answer says. -/
theorem revise_eq (visit : κ → ν → σ → Option ν × σ) (once : (entries.map Prod.fst).Nodup)
    (state : σ) :
    revise visit entries state =
      (entries.filterMap (left? visit entries state), stateAfter visit entries state) := by
  induction entries generalizing state with
  | nil => rfl
  | cons head rest inductionHypothesis =>
      rw [List.filterMap_cons, List.filterMap_congr (left?_rest visit once state), left?_head]
      simp only [revise, inductionHypothesis (List.nodup_cons.1 once).2]
      cases (visit head.1 head.2 state).1 <;> rfl

/-! ### Counting what is dropped -/

/-- The same visit, which counts the entries that it drops. -/
def counting (visit : κ → ν → σ → Option ν × σ) (key : κ) (value : ν) :
    Nat × σ → Option ν × (Nat × σ) :=
  fun (removed, state) =>
    let (kept, after) := visit key value state
    (kept, if kept.isNone then removed + 1 else removed, after)

omit [DecidableEq κ] in
theorem stateAfter_counting (visit : κ → ν → σ → Option ν × σ) (entries : List (κ × ν))
    (before : Nat × σ) :
    (stateAfter (counting visit) entries before).2 = stateAfter visit entries before.2 := by
  induction entries generalizing before with
  | nil => rfl
  | cons head rest inductionHypothesis => exact inductionHypothesis _

theorem left?_counting (visit : κ → ν → σ → Option ν × σ) (entries : List (κ × ν))
    (before : Nat × σ) :
    left? (counting visit) entries before = left? visit entries before.2 := by
  funext entry
  have same := stateAfter_counting visit (entries.takeWhile fun other => other.1 ≠ entry.1) before
  rw [left?, left?, stateAt, stateAt, ← same]
  rfl

/-- The count is that of the entries of which nothing is left. -/
theorem count_stateAfter (visit : κ → ν → σ → Option ν × σ) (once : (entries.map Prod.fst).Nodup)
    (removed : Nat) (state : σ) :
    (stateAfter (counting visit) entries (removed, state)).1 =
      removed + entries.countP fun entry => (left? visit entries state entry).isNone := by
  induction entries generalizing removed state with
  | nil => rfl
  | cons head rest inductionHypothesis =>
      have later : rest.countP (fun entry => (left? visit (head :: rest) state entry).isNone) =
          rest.countP fun entry =>
            (left? visit rest (visit head.1 head.2 state).2 entry).isNone :=
        List.countP_congr fun entry member => by rw [left?_rest visit once state entry member]
      rw [List.countP_cons, later, left?_head, Option.isNone_map]
      refine (inductionHypothesis (List.nodup_cons.1 once).2 _ _).trans ?_
      split <;> omega

omit [DecidableEq κ] in
theorem keys_inspect (visit : κ → ν → σ → Option ν × σ) (entries : List (κ × ν)) (state : σ) :
    (inspect visit entries state).1.1.map Prod.fst = entries.map Prod.fst := by
  induction entries generalizing state with
  | nil => rfl
  | cons head rest inductionHypothesis =>
      simp only [inspect]
      cases (visit head.1 head.2 state).1 <;> simp [inductionHypothesis]

omit [DecidableEq κ] in
theorem doomed_inspect_subset (visit : κ → ν → σ → Option ν × σ) (entries : List (κ × ν))
    (state : σ) : (inspect visit entries state).1.2 ⊆ entries.map Prod.fst := by
  induction entries generalizing state with
  | nil => exact List.nil_subset []
  | cons head rest inductionHypothesis =>
      simp only [inspect]
      cases (visit head.1 head.2 state).1 with
      | none => exact List.cons_subset_cons _ (inductionHypothesis _)
      | some newValue => exact List.subset_cons_of_subset _ (inductionHypothesis _)

theorem erase_of_notMem (absent : key ∉ entries.map Prod.fst) : erase key entries = entries :=
  List.filter_eq_self.2 fun _ member =>
    decide_eq_true fun same => absent (same ▸ List.mem_map_of_mem member)

theorem foldl_erase_cons {doomed : List κ} (spared : key ∉ doomed) (value : ν)
    (entries : List (κ × ν)) :
    doomed.foldl (fun left doomed => erase doomed left) ((key, value) :: entries) =
      (key, value) :: doomed.foldl (fun left doomed => erase doomed left) entries := by
  induction doomed generalizing entries with
  | nil => rfl
  | cons first rest inductionHypothesis =>
      have different : key ≠ first := fun same => spared (same ▸ List.mem_cons_self)
      have here : erase first ((key, value) :: entries) = (key, value) :: erase first entries :=
        List.filter_cons_of_pos (decide_eq_true different)
      rw [List.foldl_cons, List.foldl_cons, here,
        inductionHypothesis fun member => spared (List.mem_cons_of_mem _ member)]

theorem retain_eq_revise_counting (visit : κ → ν → σ → Option ν × σ)
    (once : (entries.map Prod.fst).Nodup) (removed : Nat) (state : σ) :
    revise (counting visit) entries (removed, state) =
      ((retain visit entries state).2.1, removed + (retain visit entries state).1,
        (retain visit entries state).2.2) := by
  induction entries generalizing removed state with
  | nil => rfl
  | cons head rest inductionHypothesis =>
      obtain ⟨key, value⟩ := head
      obtain ⟨absent, restOnce⟩ := List.nodup_cons.1 once
      have spared : key ∉ (inspect visit rest (visit key value state).2).1.2 := fun doomed =>
        absent (doomed_inspect_subset visit rest _ doomed)
      have others : erase key (inspect visit rest (visit key value state).2).1.1 =
          (inspect visit rest (visit key value state).2).1.1 := by
        apply erase_of_notMem
        rw [keys_inspect]
        exact absent
      have gone : erase key ((key, value) :: (inspect visit rest (visit key value state).2).1.1) =
          (inspect visit rest (visit key value state).2).1.1 :=
        (List.filter_cons_of_neg (by simp)).trans others
      simp only [revise, counting, inductionHypothesis restOnce, retain, inspect]
      cases (visit key value state).1 with
      | some newValue => simp [foldl_erase_cons spared]
      | none => simp [gone, Nat.add_assoc, Nat.add_comm 1]

/-! ### Visits that only drop -/

/-- The entry of a key is left as it is, unless it is rejected. -/
theorem left?_retaining (keep : κ → ν → σ → Bool × σ) (once : (entries.map Prod.fst).Nodup)
    (state : σ) :
    ∀ entry ∈ entries, left? (retaining keep) entries state entry =
      if rejects keep entry.1 entries state then none else some entry := by
  induction entries generalizing state with
  | nil => exact nofun
  | cons head rest inductionHypothesis =>
      obtain ⟨absent, restOnce⟩ := List.nodup_cons.1 once
      intro entry member
      rcases List.mem_cons.1 member with rfl | later
      · rw [left?_head, rejects_cons_self, retaining]
        cases (keep entry.1 entry.2 state).1 <;> rfl
      · have different : head.1 ≠ entry.1 := fun same =>
          absent (same ▸ List.mem_map_of_mem later)
        rw [left?_rest _ once state entry later, rejects_cons_of_ne keep different]
        exact inductionHypothesis restOnce _ entry later

end Recency

/-! ## Visits of all partitions -/

namespace Partition

variable {κ ν σ : Type} {partition : Partition κ ν}

/-- Change the entries of a partition if it is resident, and nothing else. -/
def mapContent (change : List (κ × ν) → List (κ × ν)) (partition : Partition κ ν) :
    Partition κ ν :=
  { partition with resident := partition.resident.map change }

theorem mapContent_congr {first second : List (κ × ν) → List (κ × ν)}
    (same : first partition.entries = second partition.entries) :
    partition.mapContent first = partition.mapContent second := by
  obtain ⟨resident, lastTouch⟩ := partition
  cases resident with
  | none => rfl
  | some content =>
      let hold (left : List (κ × ν)) : Partition κ ν := ⟨some left, lastTouch⟩
      exact congrArg hold same

variable [DecidableEq κ] (visit : κ → ν → σ → Option ν × σ)
  (once : (partition.entries.map Prod.fst).Nodup)

include once

theorem run_revise (state : σ) :
    (partition.revise visit).run state =
      (partition.mapContent (List.filterMap (Recency.left? visit partition.entries state)),
        Recency.stateAfter visit partition.entries state) := by
  obtain ⟨resident, lastTouch⟩ := partition
  cases resident with
  | none => rfl
  | some content =>
      have visited := Recency.revise_eq visit once state
      let hold (left : List (κ × ν)) : Partition κ ν := ⟨some left, lastTouch⟩
      exact congrArg (Prod.map hold id) visited

theorem retain_eq_revise_counting :
    partition.retain visit = partition.revise (Recency.counting visit) := by
  funext ⟨removed, state⟩
  obtain ⟨resident, lastTouch⟩ := partition
  cases resident with
  | none => rfl
  | some content =>
      have counted := Recency.retain_eq_revise_counting visit once removed state
      let hold (left : List (κ × ν)) : Partition κ ν := ⟨some left, lastTouch⟩
      exact (congrArg (Prod.map hold id) counted).symm

end Partition

namespace PartitionedCache

variable {κ ν σ : Type} {cache : PartitionedCache κ ν}

/-- Change the entries of every resident partition, and nothing else. -/
def mapContent (change : List (κ × ν) → List (κ × ν)) (cache : PartitionedCache κ ν) :
    PartitionedCache κ ν :=
  { cache with partitions := cache.partitions.map (Partition.mapContent change) }

/-- Neither residency nor stamps change, so the same partitions are the coldest. -/
theorem coldest_mapContent (change : List (κ × ν) → List (κ × ν))
    (cache : PartitionedCache κ ν) : (cache.mapContent change).coldest = cache.coldest := by
  dsimp only [coldest, mapContent]
  simp only [Fin.getElem_fin, Vector.getElem_map, Partition.mapContent, Option.isSome_map]

theorem mapContent_congr {first second : List (κ × ν) → List (κ × ν)}
    (same : ∀ partition ∈ cache.partitions, first partition.entries = second partition.entries) :
    cache.mapContent first = cache.mapContent second := by
  have visited : cache.partitions.map (Partition.mapContent first) =
      cache.partitions.map (Partition.mapContent second) :=
    Vector.map_congr_left fun partition member => Partition.mapContent_congr (same partition member)
  rw [mapContent, visited]
  rfl

theorem run_mapM_eq {α β : Type} {count : Nat} {visit : α → StateM σ β} {items : Vector α count}
    {results : Vector β count} {state after : σ}
    (listed : (items.toList.mapM visit).run state = (results.toList, after)) :
    (items.mapM visit).run state = (results, after) := by
  rw [run_toList_mapM] at listed
  obtain ⟨left, rest⟩ := Prod.ext_iff.1 listed
  exact Prod.ext (Vector.toList_inj.1 left) rest

theorem mapM_congr {α β : Type} {first second : α → StateM σ β} {items : List α}
    (same : ∀ item ∈ items, first item = second item) : items.mapM first = items.mapM second := by
  induction items with
  | nil => rfl
  | cons head rest inductionHypothesis =>
      rw [List.mapM_cons, List.mapM_cons, same head List.mem_cons_self,
        inductionHypothesis fun item member => same item (List.mem_cons_of_mem head member)]

variable [DecidableEq κ]

/-- With different keys, every partition is left as a visit of all entries leaves it. -/
theorem run_mapM_revise (visit : κ → ν → σ → Option ν × σ) (partitions : List (Partition κ ν))
    (once : ((partitions.flatMap Partition.entries).map Prod.fst).Nodup) (state : σ) :
    (partitions.mapM (Partition.revise visit)).run state =
      (partitions.map (Partition.mapContent (List.filterMap
          (Recency.left? visit (partitions.flatMap Partition.entries) state))),
        Recency.stateAfter visit (partitions.flatMap Partition.entries) state) := by
  induction partitions generalizing state with
  | nil => rfl
  | cons head rest inductionHypothesis =>
      rw [List.flatMap_cons] at once ⊢
      have split := once
      rw [List.map_append, List.nodup_append] at split
      have here : head.entries.filterMap
            (Recency.left? visit (head.entries ++ rest.flatMap Partition.entries) state) =
          head.entries.filterMap (Recency.left? visit head.entries state) :=
        List.filterMap_congr fun entry member => Recency.left?_append_of_mem visit member _ state
      have later : ∀ partition ∈ rest, partition.entries.filterMap
            (Recency.left? visit (head.entries ++ rest.flatMap Partition.entries) state) =
          partition.entries.filterMap (Recency.left? visit (rest.flatMap Partition.entries)
            (Recency.stateAfter visit head.entries state)) := fun partition present =>
        List.filterMap_congr fun entry member =>
          Recency.left?_append_of_mem_back visit head.entries once
            (List.mem_flatMap.2 ⟨partition, present, member⟩) state
      have first := Partition.run_revise visit split.1 state
      have others := inductionHypothesis split.2.1 (Recency.stateAfter visit head.entries state)
      have step : ((head :: rest).mapM (Partition.revise visit)).run state =
          (((head.revise visit).run state).1 ::
              ((rest.mapM (Partition.revise visit)).run ((head.revise visit).run state).2).1,
            ((rest.mapM (Partition.revise visit)).run ((head.revise visit).run state).2).2) := by
        rw [List.mapM_cons]
        rfl
      rw [step, first, others, List.map_cons, Partition.mapContent_congr here,
        List.map_congr_left fun partition present =>
          Partition.mapContent_congr (later partition present), Recency.stateAfter_append]

variable [Routed κ] (placed : cache.Placed)

include placed

/-- A visit of all entries changes the content of partitions, and nothing else. -/
theorem Placed.revise_eq (visit : κ → ν → σ → Option ν × σ) (state : σ) :
    cache.revise visit state =
      (cache.mapContent (List.filterMap (Recency.left? visit cache.entries state)),
        Recency.stateAfter visit cache.entries state) := by
  have visited := run_mapM_revise visit cache.partitions.toList placed.nodup_keys state
  rw [← Vector.toList_map] at visited
  rw [PartitionedCache.revise, run_mapM_eq visited]
  rfl

theorem Placed.retain_eq_revise_counting (visit : κ → ν → σ → Option ν × σ) (state : σ) :
    cache.retain visit state =
      let (after, removed, finalState) := cache.revise (Recency.counting visit) (0, state)
      (removed, after, finalState) := by
  have same : ∀ partition ∈ cache.partitions.toList,
      partition.retain visit = partition.revise (Recency.counting visit) := by
    intro partition member
    obtain ⟨index, inRange, rfl⟩ := Vector.getElem_of_mem (Vector.mem_toList_iff.1 member)
    exact Partition.retain_eq_revise_counting visit (placed index inRange).once
  have listed := run_toList_mapM (Partition.revise (Recency.counting visit)) cache.partitions
    (0, state)
  rw [← mapM_congr same] at listed
  rw [retain, run_mapM_eq listed]
  rfl

/-- A visit answers the number of entries of which nothing is left. -/
theorem Placed.retain_eq (visit : κ → ν → σ → Option ν × σ) (state : σ) :
    cache.retain visit state =
      (cache.entries.countP fun entry => (Recency.left? visit cache.entries state entry).isNone,
        cache.revise visit state) := by
  have count := Recency.count_stateAfter visit placed.nodup_keys 0 state
  rw [Nat.zero_add] at count
  have after := Recency.stateAfter_counting visit cache.entries (0, state)
  rw [placed.retain_eq_revise_counting, placed.revise_eq, placed.revise_eq,
    Recency.left?_counting, ← count, ← after]

/-- Without patches, a visit is the filter of the entries that are not rejected. -/
theorem Placed.mapContent_retaining (keep : κ → ν → σ → Bool × σ) (state : σ) :
    cache.mapContent (List.filterMap
        (Recency.left? (Recency.retaining keep) cache.entries state)) =
      cache.mapContent (List.filter fun entry =>
        !Recency.rejects keep entry.1 cache.entries state) := by
  refine mapContent_congr fun partition present => ?_
  rw [← List.filterMap_eq_filter]
  refine List.filterMap_congr fun entry member => ?_
  rw [Recency.left?_retaining keep placed.nodup_keys state entry
    (mem_entries.2 ⟨partition, present, member⟩)]
  cases rejected : Recency.rejects keep entry.1 cache.entries state <;>
    simp [Option.guard, rejected]

/-- Visits of a cache come to every entry once, in the order of the entries.  Those that are kept
stay where they are, those that are not leave and are counted, and nothing else changes. -/
structure VisitsOnce (cache : PartitionedCache κ ν) : Prop where
  different : (cache.entries.map Prod.fst).Nodup
  /-- A visit may patch the entries that it keeps. -/
  retain_eq : ∀ {σ : Type} (visit : κ → ν → σ → Option ν × σ) (state : σ),
    cache.retain visit state =
      (cache.entries.countP fun entry => (Recency.left? visit cache.entries state entry).isNone,
        cache.mapContent (List.filterMap (Recency.left? visit cache.entries state)),
        Recency.stateAfter visit cache.entries state)
  /-- A visit that patches nothing is a filter. -/
  retaining_eq : ∀ {σ : Type} (keep : κ → ν → σ → Bool × σ) (state : σ),
    cache.retain (Recency.retaining keep) state =
      (cache.entries.countP fun entry => Recency.rejects keep entry.1 cache.entries state,
        cache.mapContent (List.filter fun entry =>
          !Recency.rejects keep entry.1 cache.entries state),
        Recency.stateAfter (Recency.retaining keep) cache.entries state)
  /-- It does not matter that entries leave a partition only when all of it was visited. -/
  revise_eq : ∀ {σ : Type} (visit : κ → ν → σ → Option ν × σ) (state : σ),
    cache.revise visit state = (cache.retain visit state).2
  coldest_eq : ∀ change : List (κ × ν) → List (κ × ν),
    (cache.mapContent change).coldest = cache.coldest

theorem Placed.visitsOnce : cache.VisitsOnce := by
  constructor
  case different => exact placed.nodup_keys
  case retain_eq =>
    intro σ visit state
    rw [placed.retain_eq, placed.revise_eq]
  case retaining_eq =>
    intro σ keep state
    have counted : (cache.entries.countP fun entry =>
          (Recency.left? (Recency.retaining keep) cache.entries state entry).isNone) =
        cache.entries.countP fun entry => Recency.rejects keep entry.1 cache.entries state :=
      List.countP_congr fun entry member => by
        rw [Recency.left?_retaining keep placed.nodup_keys state entry member]
        cases Recency.rejects keep entry.1 cache.entries state <;> simp
    rw [placed.retain_eq, placed.revise_eq, placed.mapContent_retaining, counted]
  case revise_eq =>
    intro σ visit state
    rw [placed.retain_eq]
  case coldest_eq => exact fun change => cache.coldest_mapContent change

end PartitionedCache

end EntityQuery
