import Mathlib.Data.Finset.Card
import Mathlib.Data.Finset.Dedup
import EntityQuery.Proofs.Cache.Placement

/-!
# The order of entries in one partition

What a write does to the keys that are kept beside the written one.  They keep their order, and
only the last of a full list leaves.  So whatever stands before a key at some time came to the front
after the key did; and if the key is the one that leaves, these others are as many as the list holds
entries, together with the one that was written.

Visits drop entries and move none.  A key that a visit does not reject is found as before.
-/

namespace EntityQuery

namespace Recency

variable {κ ν σ : Type}

/-! ### Visits -/

/-- A visit that leaves all values as they are and drops the entries that are rejected. -/
def retaining (keep : κ → ν → σ → Bool × σ) (key : κ) (value : ν) (state : σ) : Option ν × σ :=
  (if (keep key value state).1 then some value else none, (keep key value state).2)

/-- A rejected entry leaves; the visit of the others does not depend on it. -/
theorem revise_retaining_cons (keep : κ → ν → σ → Bool × σ) (key : κ) (value : ν)
    (rest : List (κ × ν)) (state : σ) :
    (revise (retaining keep) ((key, value) :: rest) state).1 =
      if (keep key value state).1 then
        (key, value) :: (revise (retaining keep) rest (keep key value state).2).1
      else (revise (retaining keep) rest (keep key value state).2).1 := by
  simp only [revise, retaining]
  cases (keep key value state).1 <;> rfl

theorem revise_append (visit : κ → ν → σ → Option ν × σ) (front back : List (κ × ν)) (state : σ) :
    revise visit (front ++ back) state =
      ((revise visit front state).1 ++ (revise visit back (revise visit front state).2).1,
        (revise visit back (revise visit front state).2).2) := by
  induction front generalizing state with
  | nil => rfl
  | cons head rest inductionHypothesis =>
      simp only [List.cons_append, revise, inductionHypothesis]
      cases (visit head.1 head.2 state).1 <;> rfl

/-! ### Keys before a key -/

/-- Only the given keys stand before a key. -/
def Behind (rivals : List κ) (key : κ) (entries : List (κ × ν)) : Prop :=
  ∃ front back, entries.map Prod.fst = front ++ key :: back ∧ front ⊆ rivals

variable {rivals : List κ} {key : κ} {entries rest : List (κ × ν)}

theorem Behind.mem (behind : Behind rivals key entries) : key ∈ entries.map Prod.fst := by
  obtain ⟨front, back, listed, _⟩ := behind
  rw [listed]
  exact List.mem_append_right _ List.mem_cons_self

theorem Behind.of_head (rivals : List κ) (key : κ) (value : ν) (entries : List (κ × ν)) :
    Behind rivals key ((key, value) :: entries) :=
  ⟨[], entries.map Prod.fst, rfl, List.nil_subset _⟩

theorem Behind.cons (behind : Behind rivals key entries) (other : κ) (value : ν) :
    Behind (other :: rivals) key ((other, value) :: entries) := by
  obtain ⟨front, back, listed, fewer⟩ := behind
  refine ⟨other :: front, back, ?_, List.cons_subset_cons other fewer⟩
  rw [List.map_cons, listed]
  rfl

/-- A key does not fall back when other entries leave. -/
theorem Behind.of_sublist (behind : Behind rivals key entries)
    (once : (entries.map Prod.fst).Nodup)
    (sublist : (rest.map Prod.fst).Sublist (entries.map Prod.fst))
    (stays : key ∈ rest.map Prod.fst) : Behind rivals key rest := by
  obtain ⟨front, back, listed, fewer⟩ := behind
  rw [listed] at sublist once
  obtain ⟨restFront, restBack, split, frontSublist, backSublist⟩ :=
    List.sublist_append_iff.1 sublist
  have notBefore : key ∉ front := fun before =>
    (List.nodup_append.1 once).2.2 key before key List.mem_cons_self rfl
  have notAfter : key ∉ back := (List.nodup_cons.1 (List.nodup_append.1 once).2.1).1
  rw [split] at stays
  have among : key ∈ restBack :=
    (List.mem_append.1 stays).resolve_left fun before => notBefore (frontSublist.subset before)
  rcases List.sublist_cons_iff.1 backSublist with dropped | ⟨restAfter, rfl, _⟩
  · exact absurd (dropped.subset among) notAfter
  · exact ⟨restFront, restAfter, split, List.Subset.trans frontSublist.subset fewer⟩

/-! ### Look-ups and writes -/

section Keys

variable [DecidableEq κ] {other : κ} {value : ν}

theorem find?_eq_none_iff : find? key entries = none ↔ key ∉ entries.map Prod.fst := by
  simp only [find?, Option.map_eq_none_iff, List.find?_eq_none, decide_eq_true_eq, List.mem_map,
    not_exists, not_and]

theorem find?_ne_none_of_mem (member : key ∈ entries.map Prod.fst) : find? key entries ≠ none :=
  fun missing => find?_eq_none_iff.1 missing member

theorem find?_erase_self (key : κ) (entries : List (κ × ν)) :
    find? key (erase key entries) = none := by
  simp [find?, erase]

theorem find?_erase_of_ne (different : other ≠ key) (entries : List (κ × ν)) :
    find? key (erase other entries) = find? key entries := by
  induction entries with
  | nil => rfl
  | cons head rest inductionHypothesis =>
      rw [erase, List.filter_cons]
      split
      · by_cases same : head.1 = key
        · subst same
          rw [find?_cons_self, find?_cons_self]
        · rw [find?_cons_of_ne same, find?_cons_of_ne same]
          exact inductionHypothesis
      · rename_i dropped
        have isOther : head.1 = other := by simpa using dropped
        rw [find?_cons_of_ne (isOther ▸ different)]
        exact inductionHypothesis

theorem find?_promote_of_ne (different : other ≠ key) (entries : List (κ × ν)) :
    find? key (promote other entries) = find? key entries := by
  rw [promote]
  split
  · rw [find?_cons_of_ne different, find?_erase_of_ne different]
  · rfl

/-- An entry that is found comes to the front as if it were written again. -/
theorem promote_of_find? (found : find? key entries = some value) (capacity : Nat) :
    promote key entries = put capacity key value entries := by
  rw [promote, put, found]
  rfl

theorem promote_of_missing (missing : find? key entries = none) :
    promote key entries = entries := by
  rw [promote, missing]

theorem Behind.erase (behind : Behind rivals key entries) (different : other ≠ key) :
    Behind rivals key (erase other entries) := by
  obtain ⟨front, back, listed, fewer⟩ := behind
  have remaining : (Recency.erase other entries).map Prod.fst =
      (entries.map Prod.fst).filter fun kept => kept ≠ other := by
    rw [Recency.erase, List.filter_map]
    rfl
  have keyStays : (key :: back).filter (fun kept => kept ≠ other) =
      key :: back.filter fun kept => kept ≠ other :=
    List.filter_cons_of_pos (decide_eq_true different.symm)
  refine ⟨front.filter fun kept => kept ≠ other, back.filter fun kept => kept ≠ other, ?_,
    List.Subset.trans (List.filter_subset_self _) fewer⟩
  rw [remaining, listed, List.filter_append, keyStays]

/-- The last entry leaves; if it is the one of the key, all others stand before it. -/
theorem Behind.dropLast (behind : Behind rivals key entries)
    (once : (entries.map Prod.fst).Nodup) (absent : other ∉ entries.map Prod.fst) :
    Behind rivals key entries.dropLast ∨ entries.length ≤ (other :: rivals).toFinset.card := by
  obtain ⟨front, back, listed, fewer⟩ := behind
  rcases List.eq_nil_or_concat back with rfl | ⟨restBack, last, rfl⟩
  · right
    rw [listed] at once absent
    have frontOnce : (other :: front).Nodup :=
      List.nodup_cons.2 ⟨fun member => absent (List.mem_append_left _ member),
        (List.nodup_append.1 once).1⟩
    calc
      entries.length = (entries.map Prod.fst).length := (List.length_map _).symm
      _ = (other :: front).length := by rw [listed, List.length_append]; rfl
      _ = (other :: front).toFinset.card := (List.toFinset_card_of_nodup frontOnce).symm
      _ ≤ (other :: rivals).toFinset.card :=
        Finset.card_le_card fun _ member =>
          List.mem_toFinset.2 (List.cons_subset_cons other fewer (List.mem_toFinset.1 member))
  · left
    refine ⟨front, restBack, ?_, fewer⟩
    rw [List.map_dropLast, listed, List.concat_eq_append, ← List.cons_append, ← List.append_assoc,
      List.dropLast_concat]

/-- Writing another key pushes a key back by one place at most, or evicts it from a full list. -/
theorem Behind.put (behind : Behind rivals key entries) (once : (entries.map Prod.fst).Nodup)
    (different : other ≠ key) (capacity : Nat) (value : ν) :
    Behind (other :: rivals) key (put capacity other value entries) ∨
      capacity ≤ (other :: rivals).toFinset.card := by
  rw [Recency.put]
  split
  · exact .inl ((behind.erase different).cons other value)
  · rename_i missing
    split
    · exact .inl (behind.cons other value)
    · rename_i full
      have absent := find?_eq_none_iff.1 (Option.not_isSome_iff_eq_none.1 missing)
      rcases behind.dropLast once absent with stays | evicted
      · exact .inl (stays.cons other value)
      · exact .inr (Nat.le_trans (Nat.not_lt.1 full) evicted)

theorem Behind.put_self (rivals : List κ) (capacity : Nat) (key : κ) (value : ν)
    (entries : List (κ × ν)) : Behind rivals key (Recency.put capacity key value entries) := by
  rw [Recency.put]
  split
  · exact .of_head rivals key value _
  · split <;> exact .of_head rivals key value _

/-- Writing another key changes no value. -/
theorem find?_of_find?_put (once : (entries.map Prod.fst).Nodup) (different : other ≠ key)
    {capacity : Nat} {written : ν} (found : find? key (put capacity other written entries) =
      some value) : find? key entries = some value := by
  have placed : Placed (fun _ => True) entries := ⟨once, fun _ _ => trivial⟩
  rcases mem_of_mem_put (mem_of_find? found) with same | member
  · cases same
    exact absurd rfl different
  · exact placed.find?_of_mem member

theorem find?_concat_of_ne {last : κ × ν} (different : last.1 ≠ key) (entries : List (κ × ν)) :
    find? key (entries ++ [last]) = find? key entries := by
  simp [find?, List.find?_append, different]

/-- A write costs at most one other key its entry. -/
theorem exists_lost_put (once : (entries.map Prod.fst).Nodup) (capacity : Nat) (key : κ)
    (value : ν) :
    ∃ lost : Option κ, (∀ other ∈ lost, other ≠ key ∧ other ∈ entries.map Prod.fst) ∧
      ∀ other, other ≠ key → find? other (put capacity key value entries) =
        if lost = some other then none else find? other entries := by
  have of_kept (kept : ∀ other, other ≠ key →
      find? other (put capacity key value entries) = find? other entries) :
      ∃ lost : Option κ, (∀ other ∈ lost, other ≠ key ∧ other ∈ entries.map Prod.fst) ∧
        ∀ other, other ≠ key → find? other (put capacity key value entries) =
          if lost = some other then none else find? other entries := by
    refine ⟨none, ?_, kept⟩
    intro other isLost
    cases isLost
  by_cases found : (find? key entries).isSome
  · apply of_kept
    intro other different
    rw [put, if_pos found, find?_cons_of_ne different.symm, find?_erase_of_ne different.symm]
  · by_cases vacant : entries.length < capacity
    · apply of_kept
      intro other different
      rw [put, if_neg found, if_pos vacant, find?_cons_of_ne different.symm]
    · have absent := find?_eq_none_iff.1 (Option.not_isSome_iff_eq_none.1 found)
      have written : put capacity key value entries = (key, value) :: entries.dropLast := by
        rw [put, if_neg found, if_neg vacant]
      rcases List.eq_nil_or_concat entries with nothing | ⟨front, last, listed⟩
      · apply of_kept
        intro other different
        rw [written, nothing]
        exact find?_cons_of_ne different.symm value []
      · -- the list is full, and its last entry leaves
        rw [List.concat_eq_append] at listed
        subst listed
        rw [List.dropLast_concat] at written
        rw [List.map_append] at once absent
        have lastAbsent : last.1 ∉ front.map Prod.fst := fun member =>
          (List.nodup_append.1 once).2.2 last.1 member last.1 List.mem_cons_self rfl
        refine ⟨some last.1, ?_, ?_⟩
        · intro other isLost
          cases isLost
          rw [List.map_append]
          constructor
          · intro same
            subst same
            exact absent (List.mem_append_right _ List.mem_cons_self)
          · exact List.mem_append_right _ List.mem_cons_self
        · intro other different
          rw [written, find?_cons_of_ne different.symm]
          by_cases same : last.1 = other
          · subst same
            rw [if_pos rfl]
            exact find?_eq_none_iff.2 lastAbsent
          · rw [if_neg (mt Option.some.inj same)]
            exact (find?_concat_of_ne same front).symm

theorem length_erase_lt (found : (find? key entries).isSome = true) :
    (erase key entries).length < entries.length := by
  obtain ⟨value, present⟩ := Option.isSome_iff_exists.1 found
  refine List.length_filter_lt_length_iff_exists.2 ⟨_, mem_of_find? present, ?_⟩
  simp

/-- A list that fits into its capacity fits after every write. -/
theorem length_put_le {capacity : Nat} (positive : 0 < capacity)
    (fits : entries.length ≤ capacity) (key : κ) (value : ν) :
    (put capacity key value entries).length ≤ capacity := by
  rw [Recency.put]
  split
  · rename_i found
    exact Nat.le_trans (length_erase_lt found) fits
  · split
    · rename_i vacant
      exact vacant
    · rw [List.length_cons, List.length_dropLast]
      omega

/-! ### Visits that drop entries -/

/-- Whether a visit that passes a state along rejects a key when it comes to it. -/
def rejects (keep : κ → ν → σ → Bool × σ) (key : κ) : List (κ × ν) → σ → Bool
  | [], _ => false
  | (visited, value) :: rest, state =>
      let (kept, after) := keep visited value state
      if visited = key then !kept else rejects keep key rest after

theorem rejects_cons_self (keep : κ → ν → σ → Bool × σ) (key : κ) (value : ν)
    (rest : List (κ × ν)) (state : σ) :
    rejects keep key ((key, value) :: rest) state = !(keep key value state).1 :=
  if_pos rfl

theorem rejects_cons_of_ne (keep : κ → ν → σ → Bool × σ) (different : other ≠ key) (value : ν)
    (rest : List (κ × ν)) (state : σ) :
    rejects keep key ((other, value) :: rest) state =
      rejects keep key rest (keep other value state).2 :=
  if_neg different

theorem find?_retaining (keep : κ → ν → σ → Bool × σ) (once : (entries.map Prod.fst).Nodup)
    (state : σ) :
    find? key (revise (retaining keep) entries state).1 =
      if rejects keep key entries state then none else find? key entries := by
  induction entries generalizing state with
  | nil => rfl
  | cons head rest inductionHypothesis =>
      obtain ⟨visited, value⟩ := head
      obtain ⟨absent, restOnce⟩ := List.nodup_cons.1 once
      rw [revise_retaining_cons]
      by_cases same : visited = key
      · subst same
        rw [rejects_cons_self, find?_cons_self]
        cases (keep visited value state).1 with
        | true => exact find?_cons_self visited value _
        | false =>
            have forgotten := keys_revise_sublist (retaining keep) rest (keep visited value state).2
            exact find?_eq_none_iff.2 fun member => absent (forgotten.subset member)
      · rw [rejects_cons_of_ne keep same, find?_cons_of_ne same, ← inductionHypothesis restOnce]
        split
        · exact find?_cons_of_ne same value _
        · rfl

end Keys

end Recency

end EntityQuery
