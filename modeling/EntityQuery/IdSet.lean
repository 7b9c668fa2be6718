import EntityQuery.EntityId

/-!
# Ordered sets of identities

The materialized form of a result is its list of identities in strictly ascending order.  The
order is part of the type, so two sets with the same members are equal.
-/

namespace EntityQuery

/-- A set of identities, listed in strictly ascending order. -/
@[ext]
structure IdSet where
  ids : List EntityId
  ascending : ids.Pairwise (· < ·)
deriving DecidableEq

namespace IdSet

/-- Insert into an ascending list, keeping one copy of each identity. -/
def insertInto (id : EntityId) : List EntityId → List EntityId
  | [] => [id]
  | head :: rest =>
      if id < head then id :: head :: rest
      else if id = head then head :: rest
      else head :: insertInto id rest

theorem mem_insertInto {id other : EntityId} {ids : List EntityId} :
    other ∈ insertInto id ids ↔ other = id ∨ other ∈ ids := by
  induction ids with
  | nil => simp [insertInto]
  | cons head rest inductionHypothesis =>
      simp only [insertInto]
      split
      · simp
      · split
        · simp_all
        · simp only [List.mem_cons, inductionHypothesis]
          constructor <;> rintro (rfl | rfl | member) <;> simp_all

theorem pairwise_insertInto {id : EntityId} {ids : List EntityId}
    (ascending : ids.Pairwise (· < ·)) : (insertInto id ids).Pairwise (· < ·) := by
  induction ids with
  | nil => simp [insertInto]
  | cons head rest inductionHypothesis =>
      have tailAscending := (List.pairwise_cons.1 ascending).2
      have headLess := (List.pairwise_cons.1 ascending).1
      simp only [insertInto]
      split
      · rename_i less
        refine List.pairwise_cons.2 ⟨?_, ascending⟩
        intro other member
        rcases List.mem_cons.1 member with rfl | member
        · exact less
        · exact EntityId.lt_trans less (headLess other member)
      · split
        · exact ascending
        · rename_i notLess notEqual
          refine List.pairwise_cons.2 ⟨?_, inductionHypothesis tailAscending⟩
          intro other member
          rcases mem_insertInto.1 member with rfl | member
          · exact EntityId.lt_of_not_lt_of_ne notLess notEqual
          · exact headLess other member

def empty : IdSet := ⟨[], List.Pairwise.nil⟩

def insert (set : IdSet) (id : EntityId) : IdSet :=
  ⟨insertInto id set.ids, pairwise_insertInto set.ascending⟩

def erase (set : IdSet) (id : EntityId) : IdSet :=
  ⟨set.ids.filter (· ≠ id), set.ascending.filter _⟩

def ofList (ids : List EntityId) : IdSet :=
  ids.foldr (fun id set => set.insert id) empty

def contains (set : IdSet) (id : EntityId) : Bool :=
  set.ids.contains id

def size (set : IdSet) : Nat :=
  set.ids.length

def isEmpty (set : IdSet) : Bool :=
  set.ids.isEmpty

/-- The member at a rank, counted from the least. -/
def get? (set : IdSet) (rank : Nat) : Option EntityId :=
  set.ids[rank]?

/-- Whether an identity is listed from the rank `low` on and before the rank `high`.  Each look
halves what is left to search. -/
def searchBetween (ids : List EntityId) (id : EntityId) (low high : Nat)
    (inRange : high ≤ ids.length) : Bool :=
  if within : low < high then
    let middle := (low + high) / 2
    have middleInRange : middle < ids.length := by omega
    if ids[middle] = id then true
    else if ids[middle] < id then searchBetween ids id (middle + 1) high inRange
    else searchBetween ids id low middle (Nat.le_of_lt middleInRange)
  else
    false
termination_by high - low

/-- Look a member up by halving the list. -/
def search (set : IdSet) (id : EntityId) : Bool :=
  searchBetween set.ids id 0 set.ids.length (Nat.le_refl _)

instance : Membership EntityId IdSet := ⟨fun set id => id ∈ set.ids⟩

instance (id : EntityId) (set : IdSet) : Decidable (id ∈ set) :=
  inferInstanceAs (Decidable (id ∈ set.ids))

theorem mem_def {set : IdSet} {id : EntityId} : id ∈ set ↔ id ∈ set.ids :=
  Iff.rfl

@[simp]
theorem not_mem_empty (id : EntityId) : ¬ id ∈ empty := by
  simp [mem_def, empty]

@[simp]
theorem mem_insert {set : IdSet} {id other : EntityId} :
    other ∈ set.insert id ↔ other = id ∨ other ∈ set :=
  mem_insertInto

@[simp]
theorem mem_erase {set : IdSet} {id other : EntityId} :
    other ∈ set.erase id ↔ other ∈ set ∧ other ≠ id := by
  simp [mem_def, erase]

@[simp]
theorem mem_ofList {ids : List EntityId} {id : EntityId} : id ∈ ofList ids ↔ id ∈ ids := by
  induction ids with
  | nil => simp [ofList]
  | cons head rest inductionHypothesis =>
      simp only [ofList, List.foldr_cons, mem_insert, List.mem_cons] at *
      rw [inductionHypothesis]

/-- Ascending lists with the same members are equal. -/
theorem ids_eq_of_mem_iff {left right : List EntityId} (leftAscending : left.Pairwise (· < ·))
    (rightAscending : right.Pairwise (· < ·)) (sameMembers : ∀ id, id ∈ left ↔ id ∈ right) :
    left = right := by
  have distinct {ids : List EntityId} (ascending : ids.Pairwise (· < ·)) : ids.Nodup := by
    refine ascending.imp ?_
    rintro first _ less rfl
    exact EntityId.lt_irrefl first less
  have reordered : left.Perm right :=
    (List.perm_ext_iff_of_nodup (distinct leftAscending) (distinct rightAscending)).2 sameMembers
  refine reordered.eq_of_pairwise ?_ leftAscending rightAscending
  intro first second _ _ less greater
  exact absurd (EntityId.lt_trans less greater) (EntityId.lt_irrefl first)

/-- Sets with the same members are equal. -/
@[ext]
theorem eq_of_mem_iff {left right : IdSet} (sameMembers : ∀ id, id ∈ left ↔ id ∈ right) :
    left = right :=
  IdSet.ext (ids_eq_of_mem_iff left.ascending right.ascending sameMembers)

theorem contains_iff_mem {set : IdSet} {id : EntityId} : set.contains id = true ↔ id ∈ set := by
  simp [contains, mem_def]

/-! ## Search -/

section Search

variable {ids : List EntityId} {id : EntityId} {low high : Nat}

/-- A search finds nothing that is not listed, whatever the order of the list. -/
theorem mem_of_searchBetween {inRange : high ≤ ids.length}
    (found : searchBetween ids id low high inRange = true) : id ∈ ids := by
  induction low, high, inRange using searchBetween.induct ids id with
  | case1 low high inRange within middle middleInRange same =>
      rw [← same]
      exact List.getElem_mem middleInRange
  | case2 low high inRange within middle middleInRange different below inductionHypothesis =>
      rw [searchBetween, dif_pos within] at found
      simp only [middle] at different below
      simp only [if_neg different, if_pos below] at found
      exact inductionHypothesis found
  | case3 low high inRange within middle middleInRange different notBelow inductionHypothesis =>
      rw [searchBetween, dif_pos within] at found
      simp only [middle] at different notBelow
      simp only [if_neg different, if_neg notBelow] at found
      exact inductionHypothesis found
  | case4 low high inRange outside =>
      rw [searchBetween, dif_neg outside] at found
      cases found

theorem getElem_lt_of_lt (ascending : ids.Pairwise (· < ·)) {first second : Nat}
    (before : first < second) (secondInRange : second < ids.length) :
    ids[first] < ids[second] :=
  List.pairwise_iff_getElem.1 ascending first second (Nat.lt_trans before secondInRange)
    secondInRange before

/-- In an ascending list, a search finds what is listed between its bounds. -/
theorem searchBetween_of_getElem (ascending : ids.Pairwise (· < ·)) {rank : Nat}
    (rankInRange : rank < ids.length) (listed : ids[rank] = id) {inRange : high ≤ ids.length}
    (fromLow : low ≤ rank) (belowHigh : rank < high) :
    searchBetween ids id low high inRange = true := by
  induction low, high, inRange using searchBetween.induct ids id with
  | case1 low high inRange within middle middleInRange same =>
      rw [searchBetween, dif_pos within]
      exact if_pos same
  | case2 low high inRange within middle middleInRange different below inductionHypothesis =>
      -- the middle is too small, so the rank is behind it
      have behind : middle < rank := by
        apply Nat.lt_of_not_le
        intro notBehind
        rcases Nat.eq_or_lt_of_le notBehind with same | before
        · subst same
          exact different listed
        · have greater := getElem_lt_of_lt ascending before middleInRange
          rw [listed] at greater
          exact EntityId.lt_irrefl id (EntityId.lt_trans greater below)
      rw [searchBetween, dif_pos within]
      simp only [middle] at different below
      simp only [if_neg different, if_pos below]
      exact inductionHypothesis behind belowHigh
  | case3 low high inRange within middle middleInRange different notBelow inductionHypothesis =>
      have before : rank < middle := by
        apply Nat.lt_of_not_le
        intro notBefore
        rcases Nat.eq_or_lt_of_le notBefore with same | behind
        · subst same
          exact different listed
        · have smaller := getElem_lt_of_lt ascending behind rankInRange
          rw [listed] at smaller
          exact notBelow smaller
      rw [searchBetween, dif_pos within]
      simp only [middle] at different notBelow
      simp only [if_neg different, if_neg notBelow]
      exact inductionHypothesis fromLow before
  | case4 low high inRange outside =>
      exact absurd (Nat.lt_of_le_of_lt fromLow belowHigh) outside

end Search

theorem search_iff_mem {set : IdSet} {id : EntityId} : set.search id = true ↔ id ∈ set := by
  constructor
  · exact mem_of_searchBetween
  · intro member
    rcases List.getElem_of_mem member with ⟨rank, rankInRange, listed⟩
    exact searchBetween_of_getElem set.ascending rankInRange listed (Nat.zero_le rank) rankInRange

end IdSet

end EntityQuery
