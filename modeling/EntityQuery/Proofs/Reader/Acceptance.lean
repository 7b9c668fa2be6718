import EntityQuery.Proofs.Reader.Combination
import EntityQuery.Proofs.Reader.Emission

/-!
# Which children a union accepts

Two lists in any order are replayed as the children of a union.  The union can be collected exactly
where both lists are in order, and then it merges them; everywhere else collecting it reports a
violation.

Nothing is known of the order of a list, so what a child still queues may go below what was taken of
it.  A child is in order where the identity taken last and the queue behind it do not descend.  A
round either finds a child that is not, or takes the least head, and then the children are in order
behind it exactly where they were before.  The induction is on the number of queued identities.
-/

namespace EntityQuery

/-! ## What a child queues -/

namespace Feed

variable {σ : Type} {reader : Reader σ} {feed : Feed σ} {ids : List EntityId}

/-- A child supplies a list in any order; what it shows was accepted. -/
structure Queues (reader : Reader σ) (feed : Feed σ) (ids : List EntityId) : Prop where
  supplies : feed.Supplies reader ids
  accepted : ∀ id ∈ feed.item, ∀ last ∈ feed.last, last ≤ id

/-- The identity that was taken last and the queue behind it do not descend. -/
def InOrder (feed : Feed σ) (ids : List EntityId) : Prop :=
  (feed.last.toList ++ ids).Pairwise (· ≤ ·)

/-- A child that shows nothing, or of which nothing was taken, has nothing to be measured by. -/
theorem Supplies.queues {feed : Feed σ} (supplies : feed.Supplies reader ids)
    (first : feed.item = none ∨ feed.last = none) : feed.Queues reader ids := by
  refine ⟨supplies, fun id shown last taken => ?_⟩
  rcases first with nothing | nothing
  · rw [nothing] at shown
    cases shown
  · rw [nothing] at taken
    cases taken

theorem queues_ofState {state : σ} (delivers : reader.Delivers state ids) :
    (ofState state).Queues reader ids :=
  Supplies.queues (.unread delivers) (.inl rfl)

theorem inOrder_nil : feed.InOrder [] := by
  rw [InOrder, List.append_nil]
  cases feed.last with
  | none => exact .nil
  | some last => exact List.pairwise_singleton _ last

theorem inOrder_congr {filled : Feed σ} (same : filled.last = feed.last) :
    filled.InOrder ids ↔ feed.InOrder ids := by
  rw [InOrder, InOrder, same]

/-- A child that is filled shows the head of its queue, unless that goes below what was taken. -/
theorem fill_of_queues (queues : feed.Queues reader ids) (combination : Combination)
    (side : Side) :
    (∃ error failed, feed.fill reader combination side = (.error error, failed) ∧
        error.failure.isInvariantViolation = true ∧ ¬ feed.InOrder ids) ∨
      ∃ filled, feed.fill reader combination side = (.ok (), filled) ∧
        filled.Queues reader ids ∧ filled.Shows ids ∧ filled.last = feed.last := by
  obtain ⟨supplies, accepted⟩ := queues
  cases supplies with
  | @unread state last ids delivers =>
      cases delivers with
      | @ended state after step =>
          refine .inr ⟨⟨after, none, true, last⟩, ?_, Supplies.ended.queues (.inl rfl),
            ⟨rfl, rfl⟩, rfl⟩
          simp only [fill, step, Bool.false_or, Option.isSome_none, Bool.false_eq_true, if_false]
      | @yielded state after id rest step delivers =>
          have reading : (⟨state, none, false, last⟩ : Feed σ).fill reader combination side =
              (⟨after, none, false, last⟩ : Feed σ).accept combination side id := by
            simp only [fill, step, Bool.false_or, Option.isSome_none, Bool.false_eq_true, if_false]
          rw [reading]
          cases last with
          | none =>
              exact .inr ⟨⟨after, some id, false, none⟩, rfl,
                (Supplies.read delivers).queues (.inr rfl), ⟨rfl, rfl⟩, rfl⟩
          | some previous =>
              by_cases below : id < previous
              · refine .inl ⟨.childOutOfOrder combination side previous id,
                  ⟨after, none, false, some previous⟩, ?_, rfl, ?_⟩
                · simp only [accept, below, if_true]
                · intro inOrder
                  exact (List.pairwise_cons.1 inOrder).1 id List.mem_cons_self below
              · refine .inr ⟨⟨after, some id, false, some previous⟩, ?_, ⟨.read delivers, ?_⟩,
                  ⟨rfl, rfl⟩, rfl⟩
                · simp only [accept, below, if_false]
                · rintro other ⟨⟩ last ⟨⟩
                  exact below
  | read delivers => exact .inr ⟨_, rfl, ⟨.read delivers, accepted⟩, ⟨rfl, rfl⟩, rfl⟩
  | ended => exact .inr ⟨_, rfl, ⟨.ended, accepted⟩, ⟨rfl, rfl⟩, rfl⟩

section Taking

variable {id : EntityId} {rest : List EntityId} (queues : feed.Queues reader (id :: rest))
  (shows : feed.Shows (id :: rest))
include queues shows

theorem Queues.take : feed.take.Queues reader rest := by
  obtain ⟨supplies, _⟩ := queues
  cases supplies with
  | unread delivers => cases shows.item
  | read delivers => exact (Supplies.unread delivers).queues (.inl rfl)

/-- Taking what was accepted does not change whether a child is in order. -/
theorem Queues.inOrder_take : feed.take.InOrder rest ↔ feed.InOrder (id :: rest) := by
  have shown : feed.item = some id := shows.item
  rw [InOrder, InOrder, last_take shown]
  cases taken : feed.last with
  | none => rfl
  | some last =>
      have notBelow : last ≤ id := queues.accepted id shown last taken
      constructor
      · intro inOrder
        refine List.pairwise_cons.2 ⟨?_, inOrder⟩
        intro other member
        rcases List.mem_cons.1 member with rfl | member
        · exact notBelow
        · exact EntityId.le_trans notBelow ((List.pairwise_cons.1 inOrder).1 other member)
      · exact List.Pairwise.of_cons

end Taking

theorem Shows.eq_cons (shows : feed.Shows ids) {id : EntityId} (shown : feed.item = some id) :
    ∃ rest, ids = id :: rest :=
  List.head?_eq_some_iff.1 (shows.item.symm.trans shown)

theorem Shows.eq_nil (shows : feed.Shows ids) (nothing : feed.item = none) : ids = [] :=
  List.head?_eq_none_iff.1 (shows.item.symm.trans nothing)

theorem Shows.beyond (shows : feed.Shows ids) {bound : EntityId}
    (notBelow : ∀ id ∈ feed.item, bound ≤ id) : feed.Beyond bound := by
  refine beyond_of_filled ?_ notBelow
  intro nothing
  rw [shows.done, shows.eq_nil nothing]
  rfl

end Feed

/-! ## What two children queue -/

namespace Pair

variable {σ τ : Type} {leftReader : Reader σ} {rightReader : Reader τ}
  {pair filled taken : Pair σ τ} {left right leftRest rightRest : List EntityId} {id : EntityId}

/-- Both children queue their lists, and nothing below what was yielded can come of them. -/
structure Queues (leftReader : Reader σ) (rightReader : Reader τ) (pair : Pair σ τ)
    (left right : List EntityId) : Prop where
  fromLeft : pair.left.Queues leftReader left
  fromRight : pair.right.Queues rightReader right
  pending : pair.pending = none
  leftBeyond : ∀ last ∈ pair.emitted, pair.left.Beyond last
  rightBeyond : ∀ last ∈ pair.emitted, pair.right.Beyond last

/-- Both children show the heads of their queues. -/
structure Displays (leftReader : Reader σ) (rightReader : Reader τ) (pair : Pair σ τ)
    (left right : List EntityId) : Prop where
  queues : pair.Queues leftReader rightReader left right
  leftShows : pair.left.Shows left
  rightShows : pair.right.Shows right

def InOrder (pair : Pair σ τ) (left right : List EntityId) : Prop :=
  pair.left.InOrder left ∧ pair.right.InOrder right

theorem queues_ofStates {leftState : σ} {rightState : τ}
    (leftDelivers : leftReader.Delivers leftState left)
    (rightDelivers : rightReader.Delivers rightState right) :
    (ofStates leftState rightState).Queues leftReader rightReader left right where
  fromLeft := Feed.queues_ofState leftDelivers
  fromRight := Feed.queues_ofState rightDelivers
  pending := rfl
  leftBeyond := nofun
  rightBeyond := nofun

/-- Filling reports a child that is not in order, or shows both heads. -/
theorem fillBoth_of_queues (queues : pair.Queues leftReader rightReader left right) :
    (∃ error failed, pair.fillBoth leftReader rightReader .union = (.error error, failed) ∧
        error.failure.isInvariantViolation = true ∧ ¬ pair.InOrder left right) ∨
      ∃ filled, pair.fillBoth leftReader rightReader .union = (.ok (), filled) ∧
        filled.Displays leftReader rightReader left right ∧ filled.emitted = pair.emitted ∧
          (filled.InOrder left right ↔ pair.InOrder left right) := by
  rcases Feed.fill_of_queues queues.fromLeft .union .left with
    ⟨error, failed, step, violation, unordered⟩ |
      ⟨leftFeed, leftStep, leftQueues, leftShows, leftSame⟩
  · refine .inl ⟨error, { pair with left := failed }, ?_, violation, fun both => unordered both.1⟩
    simp only [fillBoth, fillLeft, step]
  rcases Feed.fill_of_queues queues.fromRight .union .right with
    ⟨error, failed, step, violation, unordered⟩ |
      ⟨rightFeed, rightStep, rightQueues, rightShows, rightSame⟩
  · refine .inl ⟨error, { pair with left := leftFeed, right := failed }, ?_, violation,
      fun both => unordered both.2⟩
    simp only [fillBoth, fillLeft, leftStep, fillRight, step]
  refine .inr ⟨{ pair with left := leftFeed, right := rightFeed }, ?_,
    ⟨⟨leftQueues, rightQueues, queues.pending, ?_, ?_⟩, leftShows, rightShows⟩, rfl, ?_⟩
  · simp only [fillBoth, fillLeft, leftStep, fillRight, rightStep]
  · intro last emitted
    have beyond := (queues.leftBeyond last emitted).fill leftReader .union .left
    rwa [leftStep] at beyond
  · intro last emitted
    have beyond := (queues.rightBeyond last emitted).fill rightReader .union .right
    rwa [rightStep] at beyond
  · exact and_congr (Feed.inOrder_congr leftSame) (Feed.inOrder_congr rightSame)

/-! ## Taking the least head -/

/-- What is left of two queues behind their least head. -/
structure Takes (leftReader : Reader σ) (rightReader : Reader τ) (pair : Pair σ τ)
    (left right : List EntityId) (id : EntityId) (taken : Pair σ τ)
    (leftRest rightRest : List EntityId) : Prop where
  queues : taken.Queues leftReader rightReader leftRest rightRest
  emitted : taken.emitted = pair.emitted
  notBelow : ∀ last ∈ pair.emitted, last ≤ id
  leftBeyond : taken.left.Beyond id
  rightBeyond : taken.right.Beyond id
  shorter : leftRest.length + rightRest.length < left.length + right.length
  members : ∀ other, (other ∈ left ∨ other ∈ right) ↔
    other = id ∨ other ∈ leftRest ∨ other ∈ rightRest
  inOrder : taken.InOrder leftRest rightRest ↔ pair.InOrder left right

theorem Displays.takeLeft (displays : pair.Displays leftReader rightReader (id :: leftRest) right)
    (notAbove : ∀ other ∈ pair.right.item, id ≤ other) :
    pair.Takes leftReader rightReader (id :: leftRest) right id pair.takeLeft leftRest right := by
  obtain ⟨queues, leftShows, rightShows⟩ := displays
  have shown : pair.left.item = some id := leftShows.item
  exact {
    queues := {
      fromLeft := queues.fromLeft.take leftShows
      fromRight := queues.fromRight
      pending := queues.pending
      leftBeyond := fun last emitted => (queues.leftBeyond last emitted).take
      rightBeyond := queues.rightBeyond }
    emitted := rfl
    notBelow := fun last emitted => (queues.leftBeyond last emitted).shown id shown
    leftBeyond := Feed.beyond_take shown
    rightBeyond := rightShows.beyond notAbove
    shorter := by rw [List.length_cons]; omega
    members := fun other => by rw [List.mem_cons, or_assoc]
    inOrder := and_congr (queues.fromLeft.inOrder_take leftShows) Iff.rfl }

theorem Displays.takeRight (displays : pair.Displays leftReader rightReader left (id :: rightRest))
    (notAbove : ∀ other ∈ pair.left.item, id ≤ other) :
    pair.Takes leftReader rightReader left (id :: rightRest) id pair.takeRight left rightRest := by
  obtain ⟨queues, leftShows, rightShows⟩ := displays
  have shown : pair.right.item = some id := rightShows.item
  exact {
    queues := {
      fromLeft := queues.fromLeft
      fromRight := queues.fromRight.take rightShows
      pending := queues.pending
      leftBeyond := queues.leftBeyond
      rightBeyond := fun last emitted => (queues.rightBeyond last emitted).take }
    emitted := rfl
    notBelow := fun last emitted => (queues.rightBeyond last emitted).shown id shown
    leftBeyond := leftShows.beyond notAbove
    rightBeyond := Feed.beyond_take shown
    shorter := by rw [List.length_cons]; omega
    members := fun other => by rw [List.mem_cons, or_left_comm]
    inOrder := and_congr Iff.rfl (queues.fromRight.inOrder_take rightShows) }

theorem Displays.takeBoth
    (displays : pair.Displays leftReader rightReader (id :: leftRest) (id :: rightRest)) :
    pair.Takes leftReader rightReader (id :: leftRest) (id :: rightRest) id pair.takeLeft.takeRight
      leftRest rightRest := by
  obtain ⟨queues, leftShows, rightShows⟩ := displays
  have leftShown : pair.left.item = some id := leftShows.item
  have rightShown : pair.right.item = some id := rightShows.item
  exact {
    queues := {
      fromLeft := queues.fromLeft.take leftShows
      fromRight := queues.fromRight.take rightShows
      pending := queues.pending
      leftBeyond := fun last emitted => (queues.leftBeyond last emitted).take
      rightBeyond := fun last emitted => (queues.rightBeyond last emitted).take }
    emitted := rfl
    notBelow := fun last emitted => (queues.leftBeyond last emitted).shown id leftShown
    leftBeyond := Feed.beyond_take leftShown
    rightBeyond := Feed.beyond_take rightShown
    shorter := by rw [List.length_cons, List.length_cons]; omega
    members := fun other => by rw [List.mem_cons, List.mem_cons, or_or_or_comm, or_self]
    inOrder := and_congr (queues.fromLeft.inOrder_take leftShows)
      (queues.fromRight.inOrder_take rightShows) }

/-- The least head is taken of every queue that starts with it. -/
theorem Displays.takeLeast (displays : pair.Displays leftReader rightReader left right)
    (least : pair.takeLeast = some (id, taken)) :
    ∃ leftRest rightRest,
      pair.Takes leftReader rightReader left right id taken leftRest rightRest := by
  rcases takeLeast_cases least with
    ⟨leftItem, notAbove, rfl⟩ | ⟨rightItem, notAbove, rfl⟩ | ⟨leftItem, rightItem, rfl⟩
  · obtain ⟨leftRest, rfl⟩ := displays.leftShows.eq_cons leftItem
    exact ⟨leftRest, right, displays.takeLeft notAbove⟩
  · obtain ⟨rightRest, rfl⟩ := displays.rightShows.eq_cons rightItem
    exact ⟨left, rightRest, displays.takeRight notAbove⟩
  · obtain ⟨leftRest, rfl⟩ := displays.leftShows.eq_cons leftItem
    obtain ⟨rightRest, rfl⟩ := displays.rightShows.eq_cons rightItem
    exact ⟨leftRest, rightRest, displays.takeBoth⟩

/-! ## Collecting -/

/--
What collecting two queues answers, behind what was yielded: their strict merge where both are in
order, and a violation where one is not.
-/
def Merges (pair : Pair σ τ) (left right : List EntityId) :
    Except QueryError (List EntityId) → Prop
  | .ok ids => pair.InOrder left right ∧ (pair.emitted.toList ++ ids).Pairwise (· < ·) ∧
      ∀ id, (id ∈ pair.emitted ∨ id ∈ ids) ↔ id ∈ pair.emitted ∨ id ∈ left ∨ id ∈ right
  | .error error => error.failure.isInvariantViolation = true ∧ ¬ pair.InOrder left right

theorem merges_nil : pair.Merges [] [] (.ok []) := by
  refine ⟨⟨Feed.inOrder_nil, Feed.inOrder_nil⟩, ?_, ?_⟩
  · rw [List.append_nil]
    cases pair.emitted with
    | none => exact .nil
    | some last => exact List.pairwise_singleton _ last
  · simp

section Taking

variable {result : Except QueryError (List EntityId)}
  (takes : pair.Takes leftReader rightReader left right id taken leftRest rightRest)
include takes

/-- A head that repeats what was yielded last is left out. -/
theorem Takes.merges_of_repeat (repeated : pair.emitted = some id)
    (merges : taken.Merges leftRest rightRest result) : pair.Merges left right result := by
  cases result with
  | error error => exact ⟨merges.1, fun inOrder => merges.2 (takes.inOrder.2 inOrder)⟩
  | ok ids =>
      obtain ⟨inOrder, ascending, members⟩ := merges
      rw [takes.emitted] at ascending members
      refine ⟨takes.inOrder.1 inOrder, ascending, ?_⟩
      intro other
      rw [members, takes.members, repeated, Option.mem_some_iff, eq_comm, or_self_left]

/-- A head above what was yielded last is yielded. -/
theorem Takes.merges_of_yield (fresh : pair.emitted ≠ some id)
    (merges : ({ taken with emitted := some id } : Pair σ τ).Merges leftRest rightRest result) :
    pair.Merges left right (result.map (id :: ·)) := by
  cases result with
  | error error => exact ⟨merges.1, fun inOrder => merges.2 (takes.inOrder.2 inOrder)⟩
  | ok ids =>
      obtain ⟨inOrder, ascending, members⟩ := merges
      refine ⟨takes.inOrder.1 inOrder, ?_, ?_⟩
      · cases emitted : pair.emitted with
        | none => exact ascending
        | some last =>
            have above : last < id := by
              apply EntityId.lt_of_not_lt_of_ne (takes.notBelow last emitted)
              rintro rfl
              exact fresh emitted
            refine List.pairwise_cons.2 ⟨?_, ascending⟩
            intro other member
            exact lt_of_mem above ascending member
      · intro other
        have rest := members other
        rw [Option.mem_some_iff, eq_comm] at rest
        rw [List.mem_cons, rest, ← takes.members]

end Taking

theorem merges_congr {result : Except QueryError (List EntityId)}
    (emitted : filled.emitted = pair.emitted)
    (inOrder : filled.InOrder left right ↔ pair.InOrder left right)
    (merges : filled.Merges left right result) : pair.Merges left right result := by
  cases result with
  | error error => exact ⟨merges.1, fun ordered => merges.2 (inOrder.2 ordered)⟩
  | ok ids =>
      obtain ⟨ordered, ascending, members⟩ := merges
      rw [emitted] at ascending members
      exact ⟨inOrder.1 ordered, ascending, members⟩

/-- Collecting a union merges two queues in order, and reports every other two. -/
theorem Queues.drain_merges (queues : pair.Queues leftReader rightReader left right) :
    pair.Merges left right ((unionReader leftReader rightReader).drain pair).1 := by
  induction counted : left.length + right.length using Nat.strongRecOn
    generalizing pair left right with
  | ind size inductionHypothesis =>
      have reading : (unionReader leftReader rightReader).next pair =
          pair.fetch (unionRound leftReader rightReader) :=
        next_eq_fetch queues.pending
      rcases fillBoth_of_queues queues with
        ⟨error, failed, filling, violation, unordered⟩ |
          ⟨filled, filling, displays, emitted, inOrder⟩
      · have step : pair.unionStep leftReader rightReader = (some (.error error), failed) := by
          simp only [unionStep, filling]
        rw [Reader.drain_of_error (reading.trans (fetch_of_answer step))]
        exact ⟨violation, unordered⟩
      refine merges_congr emitted inOrder ?_
      rcases least : filled.takeLeast with _ | ⟨id, taken⟩
      · have step : pair.unionStep leftReader rightReader = (some (.ok none), filled) := by
          simp only [unionStep, filling, least]
        obtain ⟨leftItem, rightItem⟩ := takeLeast_eq_none least
        rw [Reader.drain_of_end (reading.trans (fetch_of_answer step)),
          displays.leftShows.eq_nil leftItem, displays.rightShows.eq_nil rightItem]
        exact merges_nil
      · obtain ⟨leftRest, rightRest, takes⟩ := displays.takeLeast least
        have step : pair.unionStep leftReader rightReader = taken.emitOnce id := by
          simp only [unionStep, filling, least]
        have shorter : leftRest.length + rightRest.length < size := counted ▸ takes.shorter
        rw [emitOnce, takes.emitted] at step
        by_cases repeated : filled.emitted = some id
        · -- The round is silent: draining goes on as from what the round left.
          rw [if_pos repeated] at step
          have alike : (unionReader leftReader rightReader).next pair =
              (unionReader leftReader rightReader).next taken := by
            refine reading.trans ((fetch_of_silence step).trans ?_)
            exact (next_eq_fetch takes.queues.pending).symm
          rw [Reader.drain_congr alike]
          exact takes.merges_of_repeat repeated (inductionHypothesis _ shorter takes.queues rfl)
        · rw [if_neg repeated] at step
          rw [Reader.drain_of_yield (reading.trans (fetch_of_answer step))]
          refine takes.merges_of_yield repeated (inductionHypothesis _ shorter ?_ rfl)
          refine ⟨takes.queues.fromLeft, takes.queues.fromRight, takes.queues.pending, ?_, ?_⟩
          · rintro last ⟨⟩
            exact takes.leftBeyond
          · rintro last ⟨⟩
            exact takes.rightBeyond

/-- The union of fresh children answers their merge where both are in order, and only there. -/
theorem drain_ofStates {leftState : σ} {rightState : τ}
    (leftDelivers : leftReader.Delivers leftState left)
    (rightDelivers : rightReader.Delivers rightState right) :
    (ofStates leftState rightState).Merges left right
      ((unionReader leftReader rightReader).drain (ofStates leftState rightState)).1 :=
  (queues_ofStates leftDelivers rightDelivers).drain_merges

end Pair

/-! ## Traversals -/

theorem scriptReader_delivers (ids : List EntityId) : scriptReader.Delivers (ids.map .ok) ids := by
  induction ids with
  | nil => exact .ended rfl
  | cons id rest inductionHypothesis => exact .yielded rfl inductionHypothesis

namespace Traversal

/-- The traversal that yields the identities of a list, in its order and without an error. -/
def replay (ids : List EntityId) : Traversal := ofScript (ids.map .ok)

/--
Collecting the union of two lists succeeds exactly where neither descends.  The answer is then
strictly ascending and has the identities of both lists; otherwise a violation is reported.
-/
theorem collect_union_replay (left right : List EntityId) :
    ((∃ ids, ((replay left).union (replay right)).collect.1 = .ok ids) ↔
        left.Pairwise (· ≤ ·) ∧ right.Pairwise (· ≤ ·)) ∧
      (∀ ids, ((replay left).union (replay right)).collect.1 = .ok ids →
        ids.Pairwise (· < ·) ∧ ∀ id, id ∈ ids ↔ id ∈ left ∨ id ∈ right) ∧
      ∀ error, ((replay left).union (replay right)).collect.1 = .error error →
        error.failure.isInvariantViolation = true := by
  have merges := Pair.drain_ofStates (scriptReader_delivers left) (scriptReader_delivers right)
  change Pair.Merges _ left right ((replay left).union (replay right)).collect.1 at merges
  cases collected : ((replay left).union (replay right)).collect.1 with
  | error error =>
      rw [collected] at merges
      obtain ⟨violation, unordered⟩ := merges
      refine ⟨⟨nofun, fun inOrder => absurd inOrder unordered⟩, nofun, ?_⟩
      rintro _ ⟨⟩
      exact violation
  | ok ids =>
      rw [collected] at merges
      obtain ⟨inOrder, ascending, members⟩ := merges
      refine ⟨⟨fun _ => inOrder, fun _ => ⟨ids, rfl⟩⟩, ?_, nofun⟩
      rintro _ ⟨⟩
      refine ⟨ascending, ?_⟩
      intro id
      simpa [Pair.ofStates] using members id

end Traversal

end EntityQuery
