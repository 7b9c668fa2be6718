import EntityQuery.Proofs.Cache.Partitions

/-!
# What a partitioned cache recalls

Operations reach a cache of any capacity in any order.  A key is then found with no other value than
the one that was written last and that nothing took back since: no removal, no rejection by a visit,
no clearing, and no reclamation of its partition.  And such a value is found unless the partition
had to evict it, which takes as many other keys as the partition may hold entries: all of them
written or found since the key was.

The second half is the stack argument for least recently used entries.  In the list of a partition,
only keys that were written or found since then stand before the key.  An operation on one of them
may push the key back by one place, and the key is evicted only from the last place of a full list.

Both halves follow from one inversion of what an operation does to the partition of a key.  Either
an entry comes to the front, or entries leave while the others keep their order.
-/

namespace EntityQuery

namespace PartitionedCache

/-! ## Operations -/

/-- What a cache can be asked to do. -/
inductive Operation (κ ν : Type) : Type 1 where
  | insert (key : κ) (value : ν)
  | insertIf (key : κ) (value : ν) (accepts : Option ν → Bool)
  | get (key : κ)
  | tryGet (key : κ)
  | remove (key : κ)
  /-- Visit all entries, passing a state along, and drop those that are rejected. -/
  | retain {σ : Type} (keep : κ → ν → σ → Bool × σ) (state : σ)
  | clear
  | reclaim (wanted : Nat)

/-- An operation and the cache that it was put to. -/
structure Moment (κ ν : Type) : Type 1 where
  before : PartitionedCache κ ν
  operation : Operation κ ν

variable {κ ν : Type} [DecidableEq κ] [Routed κ]

/-- Perform an operation, whatever it answers. -/
def perform (cache : PartitionedCache κ ν) : Operation κ ν → PartitionedCache κ ν
  | .insert key value => (cache.insert key value).2
  | .insertIf key value accepts => (cache.insertIf key value accepts).2
  | .get key => (cache.get key).2
  | .tryGet key => (cache.tryGet key).2
  | .remove key => (cache.remove key).2
  | .retain keep state => (cache.revise (Recency.retaining keep) state).1
  | .clear => cache.clear
  | .reclaim wanted => (cache.reclaim wanted).2

def performAll (cache : PartitionedCache κ ν) (operations : List (Operation κ ν)) :
    PartitionedCache κ ν :=
  operations.foldl perform cache

/-- The moments of a run of operations, oldest first. -/
def moments (cache : PartitionedCache κ ν) : List (Operation κ ν) → List (Moment κ ν)
  | [] => []
  | operation :: later => ⟨cache, operation⟩ :: (cache.perform operation).moments later

theorem performAll_concat (cache : PartitionedCache κ ν) (operations : List (Operation κ ν))
    (last : Operation κ ν) :
    cache.performAll (operations ++ [last]) = (cache.performAll operations).perform last := by
  rw [performAll, List.foldl_append]
  rfl

theorem moments_concat (cache : PartitionedCache κ ν) (operations : List (Operation κ ν))
    (last : Operation κ ν) :
    cache.moments (operations ++ [last]) =
      cache.moments operations ++ [⟨cache.performAll operations, last⟩] := by
  induction operations generalizing cache with
  | nil => rfl
  | cons first later inductionHypothesis =>
      rw [List.cons_append, moments, inductionHypothesis]
      rfl

/-! ## What is remembered of a key -/

namespace Moment

def after (moment : Moment κ ν) : PartitionedCache κ ν :=
  moment.before.perform moment.operation

/-- The entry that was written, if one was. -/
def written? (moment : Moment κ ν) : Option (κ × ν) :=
  match moment.operation with
  | .insert key value => some (key, value)
  | .insertIf key value accepts =>
      if (moment.before.insertIf key value accepts).1 then some (key, value) else none
  | _ => none

/-- The entry that was found, if one was asked for. -/
def found? (moment : Moment κ ν) : Option (κ × ν) :=
  match moment.operation with
  | .get key => (moment.before.get key).1.map fun value => (key, value)
  | .tryGet key => (moment.before.tryGet key).1.map fun value => (key, value)
  | _ => none

/-- The entry that was written or found. -/
def touched? (moment : Moment κ ν) : Option (κ × ν) :=
  moment.written?.or moment.found?

/-- Whether a key was taken back: removed, rejected, or dropped with its partition. -/
def takesBack (moment : Moment κ ν) (key : κ) : Bool :=
  match moment.operation with
  | .remove removed => removed = key
  | .retain keep state => Recency.rejects keep key moment.before.entries state
  | .clear => true
  | .reclaim wanted =>
      moment.before.holds key && !(moment.before.reclaim wanted).2.holds key
  | _ => false

/-- The last value of a key, by the one before. -/
def remember (moment : Moment κ ν) (key : κ) (known : Option ν) : Option ν :=
  if moment.takesBack key then none
  else
    match moment.written? with
    | some (written, value) => if written = key then some value else known
    | none => known

/-- Whether a key was written or found. -/
def touches (moment : Moment κ ν) (key : κ) : Bool :=
  moment.touched?.any fun entry => entry.1 = key

/-- The key that was written or found, if its partition is the one of the given key. -/
def rival? (moment : Moment κ ν) (key : κ) : Option κ :=
  match moment.touched? with
  | some (other, _) =>
      if moment.before.indexOf other = moment.before.indexOf key then some other else none
  | none => none

end Moment

/-- The value that was written last under a key, unless it was taken back since. -/
def latest? (key : κ) (moments : List (Moment κ ν)) : Option ν :=
  moments.foldl (fun known moment => moment.remember key known) none

/-- The keys of the same partition that were written or found since the key itself was. -/
def rivals (key : κ) (moments : List (Moment κ ν)) : List κ :=
  (moments.reverse.takeWhile fun moment => !moment.touches key).filterMap fun moment =>
    moment.rival? key

theorem latest?_concat (key : κ) (moments : List (Moment κ ν)) (last : Moment κ ν) :
    latest? key (moments ++ [last]) = last.remember key (latest? key moments) := by
  rw [latest?, List.foldl_append]
  rfl

theorem rivals_concat (key : κ) (moments : List (Moment κ ν)) (last : Moment κ ν) :
    rivals key (moments ++ [last]) =
      if last.touches key then [] else (last.rival? key).toList ++ rivals key moments := by
  rw [rivals, List.reverse_append, List.reverse_singleton, List.singleton_append,
    List.takeWhile_cons]
  cases last.touches key with
  | true => rfl
  | false =>
      rw [Bool.not_false, if_pos rfl, List.filterMap_cons]
      cases last.rival? key <;> rfl

/-! ## One operation -/

theorem Placed.perform {cache : PartitionedCache κ ν} (placed : cache.Placed)
    (operation : Operation κ ν) : (cache.perform operation).Placed := by
  cases operation with
  | insert key value => exact placed.insert key value
  | insertIf key value accepts => exact placed.insertIf key value accepts
  | get key => exact placed.tryGet key
  | tryGet key => exact placed.tryGet key
  | remove key => exact placed.remove key
  | retain keep state => exact placed.revise _ state
  | clear => exact .clear cache
  | reclaim wanted => exact placed.reclaim wanted

theorem count_perform (cache : PartitionedCache κ ν) (operation : Operation κ ν) :
    (cache.perform operation).count = cache.count := by
  cases operation with
  | insertIf key value accepts =>
      obtain ⟨change, touched⟩ := cache.exists_insertIf_eq_touch key value accepts
      rw [perform, touched]
      rfl
  | _ => rfl

theorem chunkSize_perform (cache : PartitionedCache κ ν) (operation : Operation κ ν) :
    (cache.perform operation).chunkSize = cache.chunkSize := by
  cases operation with
  | insertIf key value accepts =>
      obtain ⟨change, touched⟩ := cache.exists_insertIf_eq_touch key value accepts
      rw [perform, touched]
      rfl
  | _ => rfl

namespace Moment

variable {moment : Moment κ ν} {key other : κ} {value : ν}

/-- What an operation does to the partition of a key. -/
inductive Turn (moment : Moment κ ν) (key : κ) : Prop
  /-- An entry is written or found, and comes to the front of its partition. -/
  | fronts {other : κ} {value : ν} :
      moment.touched? = some (other, value) →
        moment.after.entriesFor key =
          (if moment.before.indexOf other = moment.before.indexOf key then
            Recency.put moment.before.chunkSize other value (moment.before.entriesFor key)
          else moment.before.entriesFor key) → Turn moment key
  /-- Entries leave, but not the one of the key, unless it is taken back. -/
  | thins :
      moment.touched? = none →
        ((moment.after.entriesFor key).map Prod.fst).Sublist
          ((moment.before.entriesFor key).map Prod.fst) →
        moment.after.find? key =
          (if moment.takesBack key then none else moment.before.find? key) → Turn moment key

theorem Turn.of_unchanged (untouched : moment.touched? = none)
    (kept : moment.takesBack key = false)
    (unchanged : moment.after.entriesFor key = moment.before.entriesFor key) :
    Turn moment key := by
  refine .thins untouched ?_ ?_
  · rw [unchanged]
  · rw [kept, find?, unchanged]
    rfl

theorem Turn.of_emptied (untouched : moment.touched? = none)
    (takenBack : moment.takesBack key = true) (emptied : moment.after.entriesFor key = []) :
    Turn moment key := by
  refine .thins untouched ?_ ?_
  · rw [emptied]
    exact List.nil_sublist _
  · rw [takenBack, find?, emptied]
    rfl

/-- Every operation does one of the two to the partition of every key. -/
theorem turn (placed : moment.before.Placed) (key : κ) : Turn moment key := by
  obtain ⟨before, operation⟩ := moment
  cases operation with
  | insert written value => exact .fronts rfl (entriesFor_insert before written key value)
  | insertIf written value accepts =>
      by_cases accepted : accepts (before.find? written) = true
      · have step : before.insertIf written value accepts =
            (true, (before.insert written value).2) := if_pos accepted
        have touched : touched? ⟨before, .insertIf written value accepts⟩ =
            some (written, value) := by
          simp [touched?, written?, step]
        refine .fronts touched ?_
        rw [after, perform, step]
        exact entriesFor_insert before written key value
      · have step : before.insertIf written value accepts = (false, before.touch written id) :=
          if_neg accepted
        refine .of_unchanged ?_ rfl ?_
        · simp [touched?, written?, found?, step]
        · rw [after, perform, step]
          exact entriesFor_touch_id before written key
  | get asked | tryGet asked =>
      cases found : before.find? asked with
      | some value =>
          refine .fronts ?_ (entriesFor_get_of_find? found)
          exact congrArg (Option.map fun value => (asked, value)) found
      | none =>
          refine .of_unchanged ?_ rfl (entriesFor_get_of_missing found)
          exact congrArg (Option.map fun value => (asked, value)) found
  | remove removed =>
      have listed := before.entriesFor_remove removed key
      refine .thins rfl ?_ (before.find?_remove removed key)
      rw [after, perform, listed]
      split
      · exact List.filter_sublist.map Prod.fst
      · exact List.Sublist.refl _
  | retain keep state =>
      refine .thins rfl ?_ (find?_retaining placed keep state key)
      obtain ⟨_, revised⟩ := before.entriesFor_revise key (Recency.retaining keep) state
      rw [after, perform, revised]
      exact Recency.keys_revise_sublist _ _ _
  | clear => exact .of_emptied rfl rfl (before.entriesFor_clear key)
  | reclaim wanted =>
      have listed := before.entriesFor_reclaim wanted key
      cases takenBack : before.holds key && !(before.reclaim wanted).2.holds key with
      | true => exact .of_emptied rfl takenBack (listed.trans (if_pos takenBack))
      | false => exact .of_unchanged rfl takenBack (listed.trans (if_neg (by simp [takenBack])))

/-- An entry that is written or found is not taken back at the same moment. -/
theorem touched_spec (key : κ) (touched : moment.touched? = some (other, value)) :
    moment.takesBack key = false ∧ (moment.written? = some (other, value) ∨
      moment.written? = none ∧ moment.before.find? other = some value) := by
  obtain ⟨before, operation⟩ := moment
  -- what a look-up finds is what it is asked for
  have of_found {asked : κ}
      (found : (before.find? asked).map (fun value => (asked, value)) = some (other, value)) :
      before.find? other = some value := by
    obtain ⟨_, present, same⟩ := Option.map_eq_some_iff.1 found
    cases same
    exact present
  cases operation with
  | insert written new => exact ⟨rfl, .inl touched⟩
  | insertIf written new accepts =>
      have written : written? ⟨before, .insertIf written new accepts⟩ = some (other, value) :=
        Option.or_none.symm.trans touched
      exact ⟨rfl, .inl written⟩
  | get asked | tryGet asked => exact ⟨rfl, .inr ⟨rfl, of_found touched⟩⟩
  | remove | retain | clear | reclaim => cases touched

/-- What is remembered of a key that is written or found, if a found value was remembered. -/
theorem remember_of_touched_self (touched : moment.touched? = some (key, value)) {known : Option ν}
    (knows : moment.before.find? key = some value → known = some value) :
    moment.remember key known = some value := by
  obtain ⟨kept, written | ⟨unwritten, found⟩⟩ := touched_spec key touched
  · simp [remember, kept, written]
  · simp [remember, kept, unwritten, knows found]

theorem remember_of_touched_other (touched : moment.touched? = some (other, value))
    (different : other ≠ key) (known : Option ν) : moment.remember key known = known := by
  obtain ⟨kept, written | ⟨unwritten, _⟩⟩ := touched_spec key touched
  · simp [remember, kept, written, different]
  · simp [remember, kept, unwritten]

theorem remember_of_untouched (untouched : moment.touched? = none) (known : Option ν) :
    moment.remember key known = if moment.takesBack key then none else known := by
  have unwritten : moment.written? = none := (Option.or_eq_none_iff.1 untouched).1
  rw [remember, unwritten]

end Moment

/-! ## Runs of operations -/

/-- What a cache answers for a key fits what is remembered of it, and whatever stands before the key
in its partition came there since. -/
structure Recalls (cache : PartitionedCache κ ν) (key : κ) (moments : List (Moment κ ν)) :
    Prop where
  bounded : (cache.entriesFor key).length ≤ cache.chunkSize
  latest : ∀ value, cache.find? key = some value → latest? key moments = some value
  resident : ∀ value, latest? key moments = some value →
    Recency.Behind (rivals key moments) key (cache.entriesFor key) ∨
      cache.chunkSize ≤ (rivals key moments).toFinset.card

variable {moments : List (Moment κ ν)} {moment : Moment κ ν} {key other : κ} {value : ν}

theorem rivals_of_touched_other (moments : List (Moment κ ν))
    (touched : moment.touched? = some (other, value)) (different : other ≠ key) :
    rivals key (moments ++ [moment]) =
      if moment.before.indexOf other = moment.before.indexOf key then other :: rivals key moments
      else rivals key moments := by
  have touches : moment.touches key = false := by simp [Moment.touches, touched, different]
  rw [rivals_concat, touches, if_neg Bool.false_ne_true, Moment.rival?, touched]
  dsimp only
  split <;> rfl

theorem rivals_of_untouched (moments : List (Moment κ ν)) (untouched : moment.touched? = none) :
    rivals key (moments ++ [moment]) = rivals key moments := by
  have touches : moment.touches key = false := by rw [Moment.touches, untouched]; rfl
  rw [rivals_concat, touches, Moment.rival?, untouched]
  rfl

theorem Recalls.bounded_step (recalls : moment.before.Recalls key moments)
    (placed : moment.before.Placed) (positive : 0 < moment.before.chunkSize) :
    (moment.after.entriesFor key).length ≤ moment.before.chunkSize := by
  cases moment.turn placed key with
  | @fronts other written touched listed =>
      rw [listed]
      split
      · exact Recency.length_put_le positive recalls.bounded other written
      · exact recalls.bounded
  | thins untouched sublist foundAfter =>
      have fewer := sublist.length_le
      rw [List.length_map, List.length_map] at fewer
      exact Nat.le_trans fewer recalls.bounded

/-- No operation makes a cache answer anything but what is remembered. -/
theorem Recalls.latest_step (recalls : moment.before.Recalls key moments)
    (placed : moment.before.Placed) (found : moment.after.find? key = some value) :
    latest? key (moments ++ [moment]) = some value := by
  have once : ((moment.before.entriesFor key).map Prod.fst).Nodup := (placed _ _).once
  rw [latest?_concat]
  cases moment.turn placed key with
  | @fronts other written touched listed =>
      rw [find?, listed] at found
      by_cases same : other = key
      · subst same
        rw [if_pos rfl, Recency.find?_put] at found
        cases found
        exact Moment.remember_of_touched_self touched (recalls.latest value)
      · rw [Moment.remember_of_touched_other touched same]
        split at found
        · exact recalls.latest value (Recency.find?_of_find?_put once same found)
        · exact recalls.latest value found
  | thins untouched sublist foundAfter =>
      rw [Moment.remember_of_untouched untouched]
      rw [foundAfter] at found
      split at found
      · cases found
      · rename_i kept
        rw [if_neg kept]
        exact recalls.latest value found

/-- No operation makes a cache evict a remembered key that has fewer rivals than a partition holds
entries. -/
theorem Recalls.resident_step (recalls : moment.before.Recalls key moments)
    (placed : moment.before.Placed)
    (remembered : latest? key (moments ++ [moment]) = some value) :
    Recency.Behind (rivals key (moments ++ [moment])) key (moment.after.entriesFor key) ∨
      moment.before.chunkSize ≤ (rivals key (moments ++ [moment])).toFinset.card := by
  have once : ((moment.before.entriesFor key).map Prod.fst).Nodup := (placed _ _).once
  rw [latest?_concat] at remembered
  cases moment.turn placed key with
  | @fronts other written touched listed =>
      by_cases same : other = key
      · subst same
        rw [listed, if_pos rfl]
        exact .inl (.put_self _ _ _ _ _)
      · rw [Moment.remember_of_touched_other touched same] at remembered
        rw [rivals_of_touched_other moments touched same, listed]
        split
        · rcases recalls.resident value remembered with behind | evicted
          · exact behind.put once same _ written
          · have more : (rivals key moments).toFinset ⊆ (other :: rivals key moments).toFinset := by
              rw [List.toFinset_cons]
              exact Finset.subset_insert other _
            exact .inr (Nat.le_trans evicted (Finset.card_le_card more))
        · exact recalls.resident value remembered
  | thins untouched sublist foundAfter =>
      rw [Moment.remember_of_untouched untouched] at remembered
      rw [rivals_of_untouched moments untouched]
      split at remembered
      · cases remembered
      · rename_i kept
        rw [if_neg kept] at foundAfter
        rcases recalls.resident value remembered with behind | evicted
        · have found : moment.after.find? key ≠ none :=
            foundAfter ▸ Recency.find?_ne_none_of_mem behind.mem
          have stays : key ∈ (moment.after.entriesFor key).map Prod.fst :=
            Decidable.not_not.1 fun absent => found (Recency.find?_eq_none_iff.2 absent)
          exact .inl (behind.of_sublist once sublist stays)
        · exact .inr evicted

theorem Recalls.perform {cache : PartitionedCache κ ν} (recalls : cache.Recalls key moments)
    (placed : cache.Placed) (positive : 0 < cache.chunkSize) (operation : Operation κ ν) :
    (cache.perform operation).Recalls key (moments ++ [⟨cache, operation⟩]) := by
  let moment : Moment κ ν := ⟨cache, operation⟩
  have before : moment.before.Recalls key moments := recalls
  constructor
  · rw [chunkSize_perform]
    exact before.bounded_step placed positive
  · intro value found
    exact before.latest_step placed found
  · intro value remembered
    rw [chunkSize_perform]
    exact before.resident_step placed remembered

theorem recalls_ofCapacity (capacity : Nat) (key : κ) :
    (ofCapacity capacity : PartitionedCache κ ν).Recalls key [] := by
  have vacant : (ofCapacity capacity : PartitionedCache κ ν).entriesFor key = [] :=
    List.eq_nil_iff_forall_not_mem.2 fun _ member =>
      notMem_entries_ofCapacity capacity (mem_of_mem_entriesFor member)
  constructor
  · rw [vacant]
    exact Nat.zero_le _
  · intro value found
    rw [find?, vacant] at found
    cases found
  · intro value remembered
    cases remembered

/-- Every run from an empty cache recalls its operations, with partitions of the same size. -/
theorem recalls_performAll (capacity : Nat) (operations : List (Operation κ ν)) (key : κ) :
    let start : PartitionedCache κ ν := ofCapacity capacity
    (start.performAll operations).Recalls key (start.moments operations) ∧
      (start.performAll operations).Placed ∧
        (start.performAll operations).chunkSize = start.chunkSize := by
  intro start
  have positive : 0 < start.chunkSize := Nat.le_max_right _ 1
  induction operations using List.reverseRecOn with
  | nil => exact ⟨recalls_ofCapacity capacity key, .ofCapacity capacity, rfl⟩
  | append_singleton earlier last inductionHypothesis =>
      obtain ⟨recalls, placed, sameSize⟩ := inductionHypothesis
      rw [performAll_concat, moments_concat]
      exact ⟨recalls.perform placed (sameSize ▸ positive) last, placed.perform last,
        (chunkSize_perform _ last).trans sameSize⟩

/--
What a cache answers for a key after any operations.  It is never anything but the value that was
written last and that nothing took back since.  It is that value, if fewer other keys of the same
partition were written or found since the key was than a partition may hold entries.  And no
partition holds more entries than it may.
-/
theorem get_performAll (capacity : Nat) (operations : List (Operation κ ν)) (key : κ) (value : ν) :
    let start : PartitionedCache κ ν := ofCapacity capacity
    let final := start.performAll operations
    let moments := start.moments operations
    ((final.get key).1 = some value → latest? key moments = some value) ∧
      (latest? key moments = some value →
        (rivals key moments).toFinset.card < start.chunkSize → (final.get key).1 = some value) ∧
      (final.entriesFor key).length ≤ start.chunkSize := by
  intro start final moments
  obtain ⟨recalls, -, sameSize⟩ := recalls_performAll capacity operations key
  refine ⟨recalls.latest value, fun remembered fewRivals => ?_, sameSize ▸ recalls.bounded⟩
  rcases recalls.resident value remembered with behind | evicted
  · obtain ⟨found, present⟩ :=
      Option.ne_none_iff_exists'.1 (Recency.find?_ne_none_of_mem behind.mem)
    -- whatever is found is what is remembered
    have same : some found = some value := (recalls.latest found present).symm.trans remembered
    exact present.trans same
  · rw [sameSize] at evicted
    exact absurd fewRivals (Nat.not_lt.2 evicted)

/-- With as many rivals as a partition may hold entries, a key is evicted. -/
example :
    let start : PartitionedCache UInt8 Nat := ofCapacity 16
    let operations : List (Operation UInt8 Nat) :=
      [.insert 3 30, .insert 7 70, .tryGet 3, .insert 8 80, .insert 11 110]
    let final := start.performAll operations
    start.chunkSize = 3 ∧ rivals 7 (start.moments operations) = [11, 8, 3] ∧
      (final.get 7).1 = none ∧ (final.get 3).1 = some 30 := by
  decide +kernel

end PartitionedCache

end EntityQuery
