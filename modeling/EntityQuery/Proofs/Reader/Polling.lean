import EntityQuery.Proofs.Reader.Acceptance

/-!
# How far an intersection reads its children

An intersection stops as soon as one child has ended, so it need not read the other one to its end.
What it still needs to know of a child is a beginning of what the child yields: either all of it, or
so much of it that one identity is above everything the other child has.  Nothing is assumed of what
follows such a beginning, which may be in no order or fail.

The invariant of a pair is that both beginnings suffice.  A round compares the heads of the two, and
the identity that is above everything of the other child is never the one that is taken, so what is
left behind a round suffices again.  The states in which the children were read are kept along, and
with a reader that counts its calls they bound how often each child was read.
-/

namespace EntityQuery

/-! ## Beginnings of what a reader yields -/

namespace Reader

variable {σ : Type} {reader : Reader σ} {within : σ → Prop} {state : σ} {ids : List EntityId}
  {whole : Bool}

/--
Reading forwards begins with a list of identities, through states of which a property holds.  The
list is whole if the end follows; otherwise nothing is known of what follows.
-/
inductive Begins (reader : Reader σ) (within : σ → Prop) : σ → List EntityId → Bool → Prop
  | cut {state : σ} : within state → Begins reader within state [] false
  | ended {state after : σ} :
      within state → reader.next state = (.ok none, after) → within after →
        Begins reader within state [] true
  | yielded {state after : σ} {id : EntityId} {rest : List EntityId} {whole : Bool} :
      within state → reader.next state = (.ok (some id), after) →
        Begins reader within after rest whole → Begins reader within state (id :: rest) whole

theorem Begins.within_state (begins : reader.Begins within state ids whole) : within state := by
  cases begins with
  | cut inside => exact inside
  | ended inside => exact inside
  | yielded inside => exact inside

/-- What a state delivers is a whole beginning. -/
theorem Delivers.begins (delivers : reader.Delivers state ids) :
    reader.Begins (fun _ => True) state ids true := by
  induction delivers with
  | ended step => exact .ended trivial step trivial
  | yielded step _ inductionHypothesis => exact .yielded trivial step inductionHypothesis

/-- The reader that counts how often it is asked, read or stepped backwards. -/
def counting (reader : Reader σ) : Reader (σ × Nat) where
  hasNext counted :=
    let (answer, after) := reader.hasNext counted.1
    (answer, after, counted.2 + 1)
  next counted :=
    let (found, after) := reader.next counted.1
    (found, after, counted.2 + 1)
  last counted :=
    let (found, after) := reader.last counted.1
    (found, after, counted.2 + 1)
  dispose counted :=
    let (released, after) := reader.dispose counted.1
    (released, after, counted.2)
  cursors counted := reader.cursors counted.1
  budget counted := reader.budget counted.1
  budget_next counted := reader.budget_next counted.1

theorem next_counting {after : σ} {found : Yield} (step : reader.next state = (found, after))
    (count : Nat) : reader.counting.next (state, count) = (found, after, count + 1) := by
  simp only [counting, step]

/-- A beginning takes a call for each identity, and one for the end if it is whole. -/
theorem Begins.counting (begins : reader.Begins within state ids whole) {count bound : Nat}
    (enough : count + ids.length + whole.toNat ≤ bound) :
    reader.counting.Begins (fun counted => counted.2 ≤ bound) (state, count) ids whole := by
  induction begins generalizing count with
  | cut => exact .cut enough
  | ended _ step =>
      have again : count + 1 ≤ bound := enough
      exact .ended (Nat.le_of_succ_le again) (next_counting step count) again
  | @yielded state after id rest whole _ step _ inductionHypothesis =>
      have again : count + 1 + rest.length + whole.toNat ≤ bound := by
        rw [List.length_cons] at enough
        omega
      refine .yielded ?_ (next_counting step count) (inductionHypothesis again)
      show count ≤ bound
      omega

theorem Begins.counted (begins : reader.Begins within state ids whole) :
    reader.counting.Begins (fun counted => counted.2 ≤ ids.length + whole.toNat) (state, 0) ids
      whole :=
  begins.counting (by omega)

end Reader

theorem scriptReader_begins (ids : List EntityId) (behind : List (Except QueryError EntityId)) :
    scriptReader.Begins (fun _ => True) (ids.map .ok ++ behind) ids false := by
  induction ids with
  | nil => exact .cut trivial
  | cons id rest inductionHypothesis => exact .yielded trivial rfl inductionHypothesis

/-! ## What a child has in stock -/

/-- A beginning suffices beside others if it is whole, or goes above all of them. -/
def Suffices (whole : Bool) (ids others : List EntityId) : Prop :=
  whole = true ∨ ∃ id ∈ ids, ∀ other ∈ others, other < id

namespace Suffices

variable {whole : Bool} {ids others : List EntityId} {id other : EntityId}

theorem whole_or_ne_nil (enough : Suffices whole ids others) : whole = true ∨ ids ≠ [] :=
  enough.imp_right fun ⟨_, member, _⟩ => List.ne_nil_of_mem member

/-- An identity that is not above all others can be taken. -/
theorem tail (enough : Suffices whole (id :: ids) others) (member : other ∈ others)
    (notAbove : id ≤ other) : Suffices whole ids others := by
  refine enough.imp_right ?_
  rintro ⟨highest, among, above⟩
  rcases List.mem_cons.1 among with rfl | among
  · exact absurd (above other member) notAbove
  · exact ⟨highest, among, above⟩

theorem of_cons (enough : Suffices whole ids (other :: others)) : Suffices whole ids others :=
  enough.imp_right fun ⟨highest, among, above⟩ =>
    ⟨highest, among, fun id member => above id (List.mem_cons_of_mem other member)⟩

end Suffices

namespace Feed

variable {σ : Type} {reader : Reader σ} {within : σ → Prop} {feed : Feed σ} {ids : List EntityId}
  {whole : Bool}

/-- The lookahead of a child, and what it yields behind it as far as it is known. -/
inductive Begins (reader : Reader σ) (within : σ → Prop) : Feed σ → List EntityId → Bool → Prop
  | unread {state : σ} {last : Option EntityId} {ids : List EntityId} {whole : Bool} :
      reader.Begins within state ids whole →
        Begins reader within ⟨state, none, false, last⟩ ids whole
  | read {state : σ} {last : Option EntityId} {id : EntityId} {rest : List EntityId}
      {whole : Bool} :
      reader.Begins within state rest whole →
        Begins reader within ⟨state, some id, false, last⟩ (id :: rest) whole
  | ended {state : σ} {last : Option EntityId} {whole : Bool} :
      within state → Begins reader within ⟨state, none, true, last⟩ [] whole

/-- A child that is known so far, and is in order so far. -/
structure Stocks (reader : Reader σ) (within : σ → Prop) (feed : Feed σ) (ids : List EntityId)
    (whole : Bool) : Prop where
  begins : feed.Begins reader within ids whole
  inOrder : feed.InOrder ids

theorem stocks_ofState {state : σ} (begins : reader.Begins within state ids whole)
    (inOrder : ids.Pairwise (· ≤ ·)) : (ofState state).Stocks reader within ids whole :=
  ⟨.unread begins, inOrder⟩

theorem Stocks.within_state (stocks : feed.Stocks reader within ids whole) :
    within feed.state := by
  cases stocks.begins with
  | unread begins => exact begins.within_state
  | read begins => exact begins.within_state
  | ended inside => exact inside

/-- Filling does not ask for what is not known. -/
theorem Stocks.fill (stocks : feed.Stocks reader within ids whole)
    (known : whole = true ∨ ids ≠ []) (combination : Combination) (side : Side) :
    ∃ filled, feed.fill reader combination side = (.ok (), filled) ∧
      filled.Stocks reader within ids whole ∧ filled.Shows ids := by
  obtain ⟨begins, inOrder⟩ := stocks
  cases begins with
  | @unread state last ids whole begins =>
      cases begins with
      | cut =>
          rcases known with whole | nonempty
          · cases whole
          · exact absurd rfl nonempty
      | @ended state after _ step insideAfter =>
          refine ⟨⟨after, none, true, last⟩, ?_, ⟨.ended insideAfter, inOrder⟩, rfl, rfl⟩
          simp only [Feed.fill, step, Bool.false_or, Option.isSome_none, Bool.false_eq_true,
            if_false]
      | @yielded state after id rest whole _ step begins =>
          refine ⟨⟨after, some id, false, last⟩, ?_, ⟨.read begins, inOrder⟩, rfl, rfl⟩
          simp only [Feed.fill, step, Bool.false_or, Option.isSome_none, Bool.false_eq_true,
            if_false, accept]
          cases last with
          | none => rfl
          | some previous =>
              have notBelow : previous ≤ id :=
                (List.pairwise_cons.1 inOrder).1 id List.mem_cons_self
              exact if_neg notBelow
  | read begins => exact ⟨_, rfl, ⟨.read begins, inOrder⟩, rfl, rfl⟩
  | ended inside => exact ⟨_, rfl, ⟨.ended inside, inOrder⟩, rfl, rfl⟩

section Taking

variable {id : EntityId} {rest : List EntityId}
  (stocks : feed.Stocks reader within (id :: rest) whole)
include stocks

theorem Stocks.take (shows : feed.Shows (id :: rest)) :
    feed.take.Stocks reader within rest whole := by
  obtain ⟨begins, inOrder⟩ := stocks
  cases begins with
  | unread begins => cases shows.item
  | read begins =>
      exact ⟨.unread begins, inOrder.sublist (List.sublist_append_right _ _)⟩

theorem Stocks.le_of_mem {other : EntityId} (member : other ∈ id :: rest) : id ≤ other := by
  have inOrder : (id :: rest).Pairwise (· ≤ ·) :=
    stocks.inOrder.sublist (List.sublist_append_right _ _)
  rcases List.mem_cons.1 member with rfl | member
  · exact EntityId.le_refl other
  · exact (List.pairwise_cons.1 inOrder).1 other member

/-- An identity below the head of a child can be left out beside it. -/
theorem Stocks.mem_cons_iff {lesser other : EntityId} {others : List EntityId} (less : lesser < id)
    (member : other ∈ id :: rest) : other ∈ others ↔ other ∈ lesser :: others := by
  have different : other ≠ lesser := by
    rintro rfl
    exact stocks.le_of_mem member less
  rw [List.mem_cons, or_iff_right different]

end Taking

end Feed

/-! ## What two children have in stock -/

namespace Pair

variable {σ τ : Type} {leftReader : Reader σ} {rightReader : Reader τ} {leftWithin : σ → Prop}
  {rightWithin : τ → Prop} {pair : Pair σ τ} {left right : List EntityId}
  {leftWhole rightWhole : Bool}

/-- Enough is known of both children, and what was yielded is not above what they have. -/
structure Stocks (leftReader : Reader σ) (rightReader : Reader τ) (leftWithin : σ → Prop)
    (rightWithin : τ → Prop) (pair : Pair σ τ) (left right : List EntityId)
    (leftWhole rightWhole : Bool) : Prop where
  fromLeft : pair.left.Stocks leftReader leftWithin left leftWhole
  fromRight : pair.right.Stocks rightReader rightWithin right rightWhole
  leftSuffices : Suffices leftWhole left right
  rightSuffices : Suffices rightWhole right left
  pending : pair.pending = none
  notBelow : ∀ last ∈ pair.emitted, ∀ id, id ∈ left ∨ id ∈ right → last ≤ id

/-- What is yielded of two children behind what was yielded before: what both have. -/
structure Meets (pair : Pair σ τ) (left right ids : List EntityId) : Prop where
  ascending : (pair.emitted.toList ++ ids).Pairwise (· < ·)
  members : ∀ id, id ∈ ids ↔ (id ∈ left ∧ id ∈ right) ∧ pair.emitted ≠ some id

theorem meets_nil (disjoint : ∀ id, ¬ (id ∈ left ∧ id ∈ right)) : pair.Meets left right [] where
  ascending := by
    rw [List.append_nil]
    cases pair.emitted with
    | none => exact .nil
    | some last => exact List.pairwise_singleton _ last
  members id := ⟨nofun, fun both => absurd both.1 (disjoint id)⟩

/-- The right child is filled only if the left one has not ended. -/
theorem Stocks.fillUntilEnd
    (stocks : pair.Stocks leftReader rightReader leftWithin rightWithin left right leftWhole
      rightWhole) :
    ∃ filled, pair.fillUntilEnd leftReader rightReader .intersection = (.ok (), filled) ∧
      filled.Stocks leftReader rightReader leftWithin rightWithin left right leftWhole
        rightWhole ∧
      filled.emitted = pair.emitted ∧ filled.left.Shows left ∧
        (left ≠ [] → filled.right.Shows right) := by
  obtain ⟨leftFeed, leftStep, fromLeft, leftShows⟩ :=
    stocks.fromLeft.fill stocks.leftSuffices.whole_or_ne_nil .intersection .left
  have leftDone : leftFeed.done = left.isEmpty := leftShows.done
  cases left with
  | nil =>
      refine ⟨{ pair with left := leftFeed }, ?_, { stocks with fromLeft }, rfl, leftShows, nofun⟩
      simp only [Pair.fillUntilEnd, fillLeft, leftStep, leftDone, List.isEmpty_nil, if_true]
  | cons id rest =>
      obtain ⟨rightFeed, rightStep, fromRight, rightShows⟩ :=
        stocks.fromRight.fill stocks.rightSuffices.whole_or_ne_nil .intersection .right
      refine ⟨{ pair with left := leftFeed, right := rightFeed }, ?_,
        { stocks with fromLeft, fromRight }, rfl, leftShows, fun _ => rightShows⟩
      simp only [Pair.fillUntilEnd, fillLeft, leftStep, leftDone, List.isEmpty_cons,
        Bool.false_eq_true, if_false, fillRight, rightStep]

/-! ## Rounds -/

section Rounds

variable {leftId rightId id : EntityId} {leftRest rightRest ids : List EntityId}

/-- The lesser head of the left child is passed over. -/
theorem Stocks.passLeft
    (stocks : pair.Stocks leftReader rightReader leftWithin rightWithin (leftId :: leftRest)
      (rightId :: rightRest) leftWhole rightWhole)
    (shows : pair.left.Shows (leftId :: leftRest)) (less : leftId < rightId) :
    pair.takeLeft.Stocks leftReader rightReader leftWithin rightWithin leftRest
      (rightId :: rightRest) leftWhole rightWhole where
  fromLeft := stocks.fromLeft.take shows
  fromRight := stocks.fromRight
  leftSuffices := stocks.leftSuffices.tail List.mem_cons_self (EntityId.le_of_lt less)
  rightSuffices := stocks.rightSuffices.of_cons
  pending := stocks.pending
  notBelow last emitted id member :=
    stocks.notBelow last emitted id (member.imp_left (List.mem_cons_of_mem leftId))

/-- The lesser head of the right child is passed over. -/
theorem Stocks.passRight
    (stocks : pair.Stocks leftReader rightReader leftWithin rightWithin (leftId :: leftRest)
      (rightId :: rightRest) leftWhole rightWhole)
    (shows : pair.right.Shows (rightId :: rightRest)) (less : rightId < leftId) :
    pair.takeRight.Stocks leftReader rightReader leftWithin rightWithin (leftId :: leftRest)
      rightRest leftWhole rightWhole where
  fromLeft := stocks.fromLeft
  fromRight := stocks.fromRight.take shows
  leftSuffices := stocks.leftSuffices.of_cons
  rightSuffices := stocks.rightSuffices.tail List.mem_cons_self (EntityId.le_of_lt less)
  pending := stocks.pending
  notBelow last emitted id member :=
    stocks.notBelow last emitted id (member.imp_right (List.mem_cons_of_mem rightId))

/-- A common head is taken of both children. -/
theorem Stocks.takeBoth
    (stocks : pair.Stocks leftReader rightReader leftWithin rightWithin (id :: leftRest)
      (id :: rightRest) leftWhole rightWhole)
    (leftShows : pair.left.Shows (id :: leftRest))
    (rightShows : pair.right.Shows (id :: rightRest)) :
    pair.takeLeft.takeRight.Stocks leftReader rightReader leftWithin rightWithin leftRest
      rightRest leftWhole rightWhole where
  fromLeft := stocks.fromLeft.take leftShows
  fromRight := stocks.fromRight.take rightShows
  leftSuffices := (stocks.leftSuffices.tail List.mem_cons_self (EntityId.le_refl id)).of_cons
  rightSuffices := (stocks.rightSuffices.tail List.mem_cons_self (EntityId.le_refl id)).of_cons
  pending := stocks.pending
  notBelow last emitted other member :=
    stocks.notBelow last emitted other
      (member.imp (List.mem_cons_of_mem id) (List.mem_cons_of_mem id))

/-- A common head that is yielded is not above what is left of both children. -/
theorem Stocks.yield
    (stocks : pair.Stocks leftReader rightReader leftWithin rightWithin (id :: leftRest)
      (id :: rightRest) leftWhole rightWhole)
    (leftShows : pair.left.Shows (id :: leftRest))
    (rightShows : pair.right.Shows (id :: rightRest)) :
    Stocks leftReader rightReader leftWithin rightWithin
      { pair.takeLeft.takeRight with emitted := some id } leftRest rightRest leftWhole
      rightWhole := by
  refine { stocks.takeBoth leftShows rightShows with notBelow := ?_ }
  rintro last ⟨⟩ other (member | member)
  · exact stocks.fromLeft.le_of_mem (List.mem_cons_of_mem id member)
  · exact stocks.fromRight.le_of_mem (List.mem_cons_of_mem id member)

/-- What was yielded last does not count as common any more. -/
theorem Meets.congr {other : Pair σ τ} {otherLeft otherRight : List EntityId}
    (meets : other.Meets otherLeft otherRight ids) (emitted : other.emitted = pair.emitted)
    (alike : ∀ id, pair.emitted ≠ some id →
      (id ∈ otherLeft ∧ id ∈ otherRight ↔ id ∈ left ∧ id ∈ right)) :
    pair.Meets left right ids where
  ascending := emitted ▸ meets.ascending
  members id := by
    rw [meets.members, emitted]
    exact and_congr_left (alike id)

/-- A common head above what was yielded before is the next that is yielded. -/
theorem Stocks.meets_cons
    (stocks : pair.Stocks leftReader rightReader leftWithin rightWithin (id :: leftRest)
      (id :: rightRest) leftWhole rightWhole)
    (fresh : pair.emitted ≠ some id) {after : Pair σ τ} (emitted : after.emitted = some id)
    (meets : after.Meets leftRest rightRest ids) :
    pair.Meets (id :: leftRest) (id :: rightRest) (id :: ids) := by
  obtain ⟨ascending, members⟩ := meets
  rw [emitted] at ascending members
  have above : ∀ last ∈ pair.emitted, last < id := by
    intro last yielded
    refine EntityId.lt_of_not_lt_of_ne
      (stocks.notBelow last yielded id (.inl List.mem_cons_self)) ?_
    rintro rfl
    exact fresh yielded
  constructor
  · cases yielded : pair.emitted with
    | none => exact ascending
    | some last =>
        refine List.pairwise_cons.2 ⟨fun other member => ?_, ascending⟩
        exact lt_of_mem (above last yielded) ascending member
  · intro other
    rw [List.mem_cons, members, List.mem_cons, List.mem_cons, ← or_and_left]
    by_cases same : other = id
    · subst same
      exact ⟨fun _ => ⟨.inl rfl, fresh⟩, fun _ => .inl rfl⟩
    · constructor
      · rintro (equal | ⟨both, _⟩)
        · exact absurd equal same
        · refine ⟨.inr both, fun yielded => ?_⟩
          have ordered := stocks.fromLeft.le_of_mem (List.mem_cons_of_mem id both.1)
          exact ordered (above other yielded)
      · rintro ⟨equal | both, _⟩
        · exact absurd equal same
        · exact .inr ⟨both, fun equal => same (Option.some.inj equal).symm⟩

/-- What a round makes of two children: it ends, passes over something, or yields a common head. -/
inductive Advances (leftReader : Reader σ) (rightReader : Reader τ) (leftWithin : σ → Prop)
    (rightWithin : τ → Prop) (pair : Pair σ τ) (left right : List EntityId)
    (leftWhole rightWhole : Bool) : Option Yield × Pair σ τ → Prop
  | ended {after : Pair σ τ} :
      (∀ id, ¬ (id ∈ left ∧ id ∈ right)) → leftWithin after.left.state →
        rightWithin after.right.state →
        Advances leftReader rightReader leftWithin rightWithin pair left right leftWhole rightWhole
          (some (.ok none), after)
  | passed {after : Pair σ τ} {leftRest rightRest : List EntityId} :
      after.Stocks leftReader rightReader leftWithin rightWithin leftRest rightRest leftWhole
        rightWhole →
        leftRest.length + rightRest.length < left.length + right.length →
        (∀ ids, after.Meets leftRest rightRest ids → pair.Meets left right ids) →
        Advances leftReader rightReader leftWithin rightWithin pair left right leftWhole rightWhole
          (none, after)
  | yielded {after : Pair σ τ} {id : EntityId} {leftRest rightRest : List EntityId} :
      after.Stocks leftReader rightReader leftWithin rightWithin leftRest rightRest leftWhole
        rightWhole →
        leftRest.length + rightRest.length < left.length + right.length →
        (∀ ids, after.Meets leftRest rightRest ids → pair.Meets left right (id :: ids)) →
        Advances leftReader rightReader leftWithin rightWithin pair left right leftWhole rightWhole
          (some (.ok (some id)), after)

theorem Advances.congr {filled : Pair σ τ} {result : Option Yield × Pair σ τ}
    (emitted : filled.emitted = pair.emitted)
    (advances : Advances leftReader rightReader leftWithin rightWithin filled left right leftWhole
      rightWhole result) :
    Advances leftReader rightReader leftWithin rightWithin pair left right leftWhole rightWhole
      result := by
  have alike {ids : List EntityId} (meets : filled.Meets left right ids) :
      pair.Meets left right ids := meets.congr emitted fun _ _ => Iff.rfl
  cases advances with
  | ended disjoint leftInside rightInside => exact .ended disjoint leftInside rightInside
  | passed stocks shorter meets =>
      exact .passed stocks shorter fun ids meetsAfter => alike (meets ids meetsAfter)
  | yielded stocks shorter meets =>
      exact .yielded stocks shorter fun ids meetsAfter => alike (meets ids meetsAfter)

/-- The lesser of two heads is passed over, and a common one is yielded unless it was before. -/
theorem Stocks.advances_of_heads
    (stocks : pair.Stocks leftReader rightReader leftWithin rightWithin (leftId :: leftRest)
      (rightId :: rightRest) leftWhole rightWhole)
    (leftShows : pair.left.Shows (leftId :: leftRest))
    (rightShows : pair.right.Shows (rightId :: rightRest)) :
    Advances leftReader rightReader leftWithin rightWithin pair (leftId :: leftRest)
      (rightId :: rightRest) leftWhole rightWhole
      (if leftId < rightId then (none, pair.takeLeft)
        else if rightId < leftId then (none, pair.takeRight)
        else pair.takeLeft.takeRight.emitOnce leftId) := by
  by_cases less : leftId < rightId
  · rw [if_pos less]
    refine .passed (stocks.passLeft leftShows less) ?_ fun ids meets => ?_
    · simp only [List.length_cons]
      omega
    · exact meets.congr rfl fun id _ =>
        and_congr_left fun member => stocks.fromRight.mem_cons_iff less member
  by_cases greater : rightId < leftId
  · rw [if_neg less, if_pos greater]
    refine .passed (stocks.passRight rightShows greater) ?_ fun ids meets => ?_
    · simp only [List.length_cons]
      omega
    · exact meets.congr rfl fun id _ =>
        and_congr_right fun member => stocks.fromLeft.mem_cons_iff greater member
  obtain rfl := EntityId.eq_of_not_lt less greater
  have shorter : leftRest.length + rightRest.length <
      (leftId :: leftRest).length + (leftId :: rightRest).length := by
    simp only [List.length_cons]
    omega
  have sameEmitted : pair.takeLeft.takeRight.emitted = pair.emitted := rfl
  rw [if_neg less, if_neg greater, emitOnce, sameEmitted]
  by_cases repeated : pair.emitted = some leftId
  · rw [if_pos repeated]
    refine .passed (stocks.takeBoth leftShows rightShows) shorter fun ids meets => ?_
    refine meets.congr rfl fun id fresh => ?_
    have different : id ≠ leftId := fun same => fresh (same ▸ repeated)
    rw [List.mem_cons, List.mem_cons, or_iff_right different, or_iff_right different]
  · rw [if_neg repeated]
    exact .yielded (stocks.yield leftShows rightShows) shorter fun ids meets =>
      stocks.meets_cons repeated rfl meets

/-- A round compares the heads of both children, unless one of them has ended. -/
theorem Stocks.advances
    (stocks : pair.Stocks leftReader rightReader leftWithin rightWithin left right leftWhole
      rightWhole) :
    Advances leftReader rightReader leftWithin rightWithin pair left right leftWhole rightWhole
      (pair.intersectionStep leftReader rightReader) := by
  obtain ⟨filled, filling, filledStocks, emitted, leftShows, rightShows⟩ := stocks.fillUntilEnd
  have ending (ended : filled.ended = true) (disjoint : ∀ id, ¬ (id ∈ left ∧ id ∈ right)) :
      Advances leftReader rightReader leftWithin rightWithin pair left right leftWhole rightWhole
        (pair.intersectionStep leftReader rightReader) := by
    simp only [intersectionStep, filling, ended, if_true]
    exact .ended disjoint filledStocks.fromLeft.within_state filledStocks.fromRight.within_state
  cases left with
  | nil =>
      refine ending ?_ fun id both => List.not_mem_nil both.1
      rw [Pair.ended, leftShows.done]
      rfl
  | cons leftId leftRest =>
      have rightShows : filled.right.Shows right := rightShows (List.cons_ne_nil leftId leftRest)
      cases right with
      | nil =>
          refine ending ?_ fun id both => List.not_mem_nil both.2
          rw [Pair.ended, rightShows.done, List.isEmpty_nil, Bool.or_true]
      | cons rightId rightRest =>
          have going : filled.ended = false := by
            rw [Pair.ended, leftShows.done, rightShows.done]
            rfl
          simp only [intersectionStep, filling, going, leftShows.item, rightShows.item,
            List.head?_cons, Bool.false_eq_true, if_false]
          exact (filledStocks.advances_of_heads leftShows rightShows).congr emitted

end Rounds

/-! ## Collecting -/

/--
Collecting an intersection of which enough is known succeeds with what both children have, and each
child stays in the states through which it was known to be read.
-/
theorem Stocks.drain_meets
    (stocks : pair.Stocks leftReader rightReader leftWithin rightWithin left right leftWhole
      rightWhole) :
    ∃ ids final, (intersectionReader leftReader rightReader).drain pair = (.ok ids, final) ∧
      pair.Meets left right ids ∧ leftWithin final.left.state ∧
        rightWithin final.right.state := by
  induction counted : left.length + right.length using Nat.strongRecOn
    generalizing pair left right with
  | ind size inductionHypothesis =>
      have reading : (intersectionReader leftReader rightReader).next pair =
          pair.fetch (intersectionRound leftReader rightReader) :=
        next_eq_fetch stocks.pending
      have advances := stocks.advances
      rcases step : pair.intersectionStep leftReader rightReader with ⟨answer, after⟩
      rw [step] at advances
      cases advances with
      | ended disjoint leftInside rightInside =>
          exact ⟨[], after, Reader.drain_of_end (reading.trans (fetch_of_answer step)),
            meets_nil disjoint, leftInside, rightInside⟩
      | passed stocksAfter shorter meets =>
          obtain ⟨ids, final, drained, meetsAfter, inside⟩ :=
            inductionHypothesis _ (counted ▸ shorter) stocksAfter rfl
          have alike : (intersectionReader leftReader rightReader).next pair =
              (intersectionReader leftReader rightReader).next after :=
            reading.trans ((fetch_of_silence step).trans (next_eq_fetch stocksAfter.pending).symm)
          exact ⟨ids, final, (Reader.drain_congr alike).trans drained, meets ids meetsAfter, inside⟩
      | @yielded _ id _ _ stocksAfter shorter meets =>
          obtain ⟨ids, final, drained, meetsAfter, inside⟩ :=
            inductionHypothesis _ (counted ▸ shorter) stocksAfter rfl
          refine ⟨id :: ids, final, ?_, meets ids meetsAfter, inside⟩
          rw [Reader.drain_of_yield (reading.trans (fetch_of_answer step)), drained]
          rfl

/-- Enough is known of two fresh children if each beginning suffices beside the other. -/
theorem stocks_ofStates {leftState : σ} {rightState : τ}
    (leftBegins : leftReader.Begins leftWithin leftState left leftWhole)
    (rightBegins : rightReader.Begins rightWithin rightState right rightWhole)
    (leftInOrder : left.Pairwise (· ≤ ·)) (rightInOrder : right.Pairwise (· ≤ ·))
    (leftSuffices : Suffices leftWhole left right)
    (rightSuffices : Suffices rightWhole right left) :
    (ofStates leftState rightState).Stocks leftReader rightReader leftWithin rightWithin left right
      leftWhole rightWhole where
  fromLeft := Feed.stocks_ofState leftBegins leftInOrder
  fromRight := Feed.stocks_ofState rightBegins rightInOrder
  leftSuffices := leftSuffices
  rightSuffices := rightSuffices
  pending := rfl
  notBelow := nofun

end Pair

/-! ## Scripts -/

namespace Traversal

/-- Collecting the intersection of two scripts, with the number of calls to either of them. -/
def intersectCounting (left right : List (Except QueryError EntityId)) :
    Except QueryError (List EntityId) × Nat × Nat :=
  let (answer, final) := (intersectionReader scriptReader.counting scriptReader.counting).drain
    (Pair.ofStates (left, 0) (right, 0))
  (answer, final.left.state.2, final.right.state.2)

/-- Collecting the intersection of two scripts answers a list, with so many calls at most. -/
structure Intersects (left right : List (Except QueryError EntityId)) (ids : List EntityId)
    (leftCalls rightCalls : Nat) : Prop where
  collect : ((ofScript left).intersection (ofScript right)).collect.1 = .ok ids
  counting : (intersectCounting left right).1 = .ok ids
  leftCalls : (intersectCounting left right).2.1 ≤ leftCalls
  rightCalls : (intersectCounting left right).2.2 ≤ rightCalls

/-- Scripts of which enough is known intersect in what their beginnings have in common. -/
theorem intersects_of_begins {leftScript rightScript : List (Except QueryError EntityId)}
    {left right ids : List EntityId} {leftWhole rightWhole : Bool}
    (leftBegins : scriptReader.Begins (fun _ => True) leftScript left leftWhole)
    (rightBegins : scriptReader.Begins (fun _ => True) rightScript right rightWhole)
    (leftInOrder : left.Pairwise (· ≤ ·)) (rightInOrder : right.Pairwise (· ≤ ·))
    (leftSuffices : Suffices leftWhole left right)
    (rightSuffices : Suffices rightWhole right left)
    (ascending : ids.Pairwise (· < ·)) (common : ∀ id, id ∈ ids ↔ id ∈ left ∧ id ∈ right) :
    Intersects leftScript rightScript ids (left.length + leftWhole.toNat)
      (right.length + rightWhole.toNat) := by
  have answered {σ τ : Type} {leftState : σ} {rightState : τ} {others : List EntityId}
      (meets : (Pair.ofStates leftState rightState).Meets left right others) : others = ids := by
    refine IdSet.ids_eq_of_mem_iff meets.ascending ascending fun id => ?_
    rw [meets.members, common]
    exact and_iff_left nofun
  obtain ⟨_, final, drained, meets, _⟩ := (Pair.stocks_ofStates leftBegins rightBegins leftInOrder
    rightInOrder leftSuffices rightSuffices).drain_meets
  obtain rfl := answered meets
  obtain ⟨_, counted, countedDrained, countedMeets, leftCalls, rightCalls⟩ :=
    (Pair.stocks_ofStates leftBegins.counted rightBegins.counted leftInOrder rightInOrder
      leftSuffices rightSuffices).drain_meets
  obtain rfl := answered countedMeets
  exact {
    collect := congrArg Prod.fst drained
    counting := by rw [intersectCounting, countedDrained]
    leftCalls := by rw [intersectCounting, countedDrained]; exact leftCalls
    rightCalls := by rw [intersectCounting, countedDrained]; exact rightCalls }

/-- An identity of a list that is above all others, with what stands before it and behind it. -/
structure Surpasses (ids others before : List EntityId) (first : EntityId)
    (behind : List EntityId) : Prop where
  split : ids = before ++ first :: behind
  above : ∀ other ∈ others, other < first

namespace Surpasses

variable {ids others before behind : List EntityId} {first : EntityId}

theorem length_upTo (before : List EntityId) (first : EntityId) :
    before.length + 1 = (before ++ [first]).length := by
  rw [List.length_append, List.length_singleton]

variable (surpasses : Surpasses ids others before first behind)
include surpasses

theorem sublist : (before ++ [first]).Sublist ids := by
  rw [surpasses.split]
  exact (List.singleton_sublist.2 List.mem_cons_self).append_left before

theorem outweighs : Suffices false (before ++ [first]) others :=
  .inr ⟨first, List.mem_append_right before List.mem_cons_self, surpasses.above⟩

/-- Behind an identity above all others there is none of them. -/
theorem mem_iff (inOrder : ids.Pairwise (· ≤ ·)) {id : EntityId} (member : id ∈ others) :
    id ∈ before ++ [first] ↔ id ∈ ids := by
  refine ⟨fun among => surpasses.sublist.subset among, fun among => ?_⟩
  rw [surpasses.split] at among inOrder
  rcases List.mem_append.1 among with among | among
  · exact List.mem_append_left [first] among
  · have ordered := (List.pairwise_cons.1 (List.pairwise_append.1 inOrder).2.1).1
    rcases List.mem_cons.1 among with rfl | among
    · exact List.mem_append_right before List.mem_cons_self
    · exact absurd (surpasses.above id member) (ordered id among)

theorem map_ok : (before ++ [first]).map (Except.ok : EntityId → Except QueryError EntityId) ++
    behind.map .ok = ids.map .ok := by
  rw [surpasses.split, ← List.map_append, List.append_assoc]
  rfl

end Surpasses

/--
Collecting the intersection of two lists that do not descend answers strictly ascending what both
have.  A child is not called any more once it has yielded an identity above all of the other
child's, so nothing that is put behind this identity, be it out of order or an error, changes the
answer.
-/
theorem collect_intersection_replay {left right : List EntityId}
    (leftInOrder : left.Pairwise (· ≤ ·)) (rightInOrder : right.Pairwise (· ≤ ·)) :
    ∃ ids : List EntityId, ids.Pairwise (· < ·) ∧ (∀ id, id ∈ ids ↔ id ∈ left ∧ id ∈ right) ∧
      Intersects (left.map .ok) (right.map .ok) ids (left.length + 1) (right.length + 1) ∧
      (∀ before first behind, Surpasses left right before first behind →
        Intersects (left.map .ok) (right.map .ok) ids (before.length + 1) (right.length + 1) ∧
        ∀ script, Intersects ((before ++ [first]).map .ok ++ script) (right.map .ok) ids
          (before.length + 1) (right.length + 1)) ∧
      ∀ before first behind, Surpasses right left before first behind →
        Intersects (left.map .ok) (right.map .ok) ids (left.length + 1) (before.length + 1) ∧
        ∀ script, Intersects (left.map .ok) ((before ++ [first]).map .ok ++ script) ids
          (left.length + 1) (before.length + 1) := by
  let both : IdSet := (IdSet.ofList left).inter (.ofList right)
  have common (id : EntityId) : id ∈ both.ids ↔ id ∈ left ∧ id ∈ right := by
    rw [← IdSet.mem_def, IdSet.mem_inter, IdSet.mem_ofList, IdSet.mem_ofList]
  refine ⟨both.ids, both.ascending, common, ?_, ?_, ?_⟩
  · exact intersects_of_begins (scriptReader_delivers left).begins
      (scriptReader_delivers right).begins leftInOrder rightInOrder (.inl rfl) (.inl rfl)
      both.ascending common
  · intro before first behind surpasses
    have cut (script : List (Except QueryError EntityId)) :
        Intersects ((before ++ [first]).map .ok ++ script) (right.map .ok) both.ids
          (before.length + 1) (right.length + 1) := by
      rw [Surpasses.length_upTo before first]
      refine intersects_of_begins (scriptReader_begins (before ++ [first]) script)
        (scriptReader_delivers right).begins (leftInOrder.sublist surpasses.sublist) rightInOrder
        surpasses.outweighs (.inl rfl) both.ascending fun id => ?_
      rw [common]
      exact and_congr_left fun member => (surpasses.mem_iff leftInOrder member).symm
    exact ⟨surpasses.map_ok ▸ cut (behind.map .ok), cut⟩
  · intro before first behind surpasses
    have cut (script : List (Except QueryError EntityId)) :
        Intersects (left.map .ok) ((before ++ [first]).map .ok ++ script) both.ids
          (left.length + 1) (before.length + 1) := by
      rw [Surpasses.length_upTo before first]
      refine intersects_of_begins (scriptReader_delivers left).begins
        (scriptReader_begins (before ++ [first]) script) leftInOrder
        (rightInOrder.sublist surpasses.sublist) (.inl rfl) surpasses.outweighs both.ascending
        fun id => ?_
      rw [common]
      exact and_congr_right fun member => (surpasses.mem_iff rightInOrder member).symm
    exact ⟨surpasses.map_ok ▸ cut (behind.map .ok), cut⟩

/-- Behind its fourth identity the left list may go on with a lesser one and with an error. -/
theorem collect_intersection_replay_cut :
    let left : List EntityId := [⟨1, 1⟩, ⟨1, 3⟩, ⟨1, 3⟩, ⟨1, 7⟩, ⟨1, 9⟩]
    let right : List EntityId := [⟨1, 2⟩, ⟨1, 3⟩, ⟨1, 5⟩]
    let before : List EntityId := [⟨1, 1⟩, ⟨1, 3⟩, ⟨1, 3⟩]
    left.Pairwise (· ≤ ·) ∧ right.Pairwise (· ≤ ·) ∧
      Surpasses left right before ⟨1, 7⟩ [⟨1, 9⟩] ∧
      Intersects ((before ++ [(⟨1, 7⟩ : EntityId)]).map .ok ++ [.ok ⟨1, 2⟩, .error .noReverse])
        (right.map .ok) [⟨1, 3⟩] 4 4 := by
  intro left right before
  have leftInOrder : left.Pairwise (· ≤ ·) := by decide
  have rightInOrder : right.Pairwise (· ≤ ·) := by decide
  have surpasses : Surpasses left right before ⟨1, 7⟩ [⟨1, 9⟩] := ⟨rfl, by decide⟩
  obtain ⟨ids, ascending, common, _, cut, _⟩ :=
    collect_intersection_replay leftInOrder rightInOrder
  have onlyThree : ∀ id ∈ left, id ∈ right → id ∈ [(⟨1, 3⟩ : EntityId)] := by decide
  have three : ∀ id ∈ [(⟨1, 3⟩ : EntityId)], id ∈ left ∧ id ∈ right := by decide
  have answered : ids = [⟨1, 3⟩] := by
    refine IdSet.ids_eq_of_mem_iff ascending (List.pairwise_singleton _ _) fun id => ?_
    rw [common]
    exact ⟨fun both => onlyThree id both.1 both.2, three id⟩
  subst answered
  exact ⟨leftInOrder, rightInOrder, surpasses, (cut _ _ _ surpasses).2 _⟩

end Traversal

end EntityQuery
