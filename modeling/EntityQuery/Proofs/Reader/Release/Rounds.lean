import EntityQuery.Proofs.Reader.Combination
import EntityQuery.Proofs.Reader.Release.Probes

/-!
# Rounds of combinations that were disposed

A combination keeps the identities that it fetched of its children but did not yield, and disposing
it leaves them where they are.  None of them is taken afterwards, because between two rounds it
never has what it would need to take one: an intersection does not show the heads of both children,
and where a union shows a head, the other child has to be read first.  The child that has to be read
lies before its end, so once it was disposed it reports a violation to every reading.

A round of either combination is told by one case analysis, from which follows what it leaves of a
pair that is held and of one that was released.
-/

namespace EntityQuery

/-! ## Children -/

namespace Feed

variable {σ : Type} {reader : Reader σ} {live unended : σ → Prop} {shut : Bool → σ → Prop}
  {feed filled : Feed σ} {result : Except QueryError Unit} {combination : Combination} {side : Side}

/-- A child that has to be read, in a state of the given kind. -/
structure Hungry (good : σ → Prop) (feed : Feed σ) : Prop where
  item : feed.item = none
  undone : feed.done = false
  state : good feed.state

/-- A child that is held; what it shows lies before its end. -/
structure Live (live unended : σ → Prop) (feed : Feed σ) : Prop where
  state : live feed.state
  shown : feed.item.isSome = true → feed.done = false ∧ unended feed.state

theorem Live.take (isLive : feed.Live live unended) : feed.take.Live live unended :=
  ⟨isLive.state, nofun⟩

theorem Live.hungry_take (isLive : feed.Live live unended) (shown : feed.item.isSome = true) :
    feed.take.Hungry unended :=
  ⟨rfl, (isLive.shown shown).1, (isLive.shown shown).2⟩

/-- What filling a child that is held leaves. -/
structure Filled (live unended : σ → Prop) (feed : Feed σ) (result : Except QueryError Unit)
    (filled : Feed σ) : Prop where
  live : filled.Live live unended
  failed {error : QueryError} : result = .error error → filled.Hungry unended
  /-- What is shown was there before, or the child was read for it. -/
  shown : filled.item.isSome = true → feed.Hungry unended ∨ filled = feed

theorem Live.fill (releasing : reader.Releasing live unended shut)
    (isLive : feed.Live live unended)
    (step : feed.fill reader combination side = (result, filled)) :
    feed.Filled live unended result filled := by
  have filling := feed.filling_fill reader combination side
  rw [step] at filling
  have next := releasing.next isLive.state
  have goesOn := releasing.goesOn isLive.state
  have yields {id : EntityId} : (reader.next feed.state).1 = .ok (some id) →
      unended feed.state := releasing.yields isLive.state
  cases filling with
  | kept => exact ⟨isLive, nofun, fun _ => .inr rfl⟩
  | failed unfilled undone read =>
      rw [read] at next goesOn
      have empty (shown : feed.item.isSome = true) : False := by simp [unfilled] at shown
      exact ⟨⟨next, fun shown => (empty shown).elim⟩, fun _ => ⟨unfilled, undone, goesOn nofun⟩,
        fun shown => (empty shown).elim⟩
  | ended unfilled undone read =>
      rw [read] at next
      have empty (shown : feed.item.isSome = true) : False := by simp [unfilled] at shown
      exact ⟨⟨next, fun shown => (empty shown).elim⟩, nofun, fun shown => (empty shown).elim⟩
  | found unfilled undone read =>
      rw [read] at next goesOn yields
      exact ⟨⟨next, fun _ => ⟨undone, goesOn nofun⟩⟩, nofun,
        fun _ => .inl ⟨unfilled, undone, yields rfl⟩⟩
  | refused unfilled undone read =>
      rw [read] at next goesOn
      have empty (shown : feed.item.isSome = true) : False := by simp [unfilled] at shown
      exact ⟨⟨next, fun shown => (empty shown).elim⟩, fun _ => ⟨unfilled, undone, goesOn nofun⟩,
        fun shown => (empty shown).elim⟩

/-- What filling a child that was released leaves: it never shows more than before. -/
structure Starved (reader : Reader σ) (shut : Bool → σ → Prop) (feed : Feed σ)
    (result : Except QueryError Unit) (filled : Feed σ) : Prop where
  item : filled.item = feed.item
  rests : reader.Rests (shut false) feed.state filled.state
  violates {error : QueryError} : result = .error error → error.failure.isInvariantViolation = true
  /-- A child that was cut short reports a violation whenever it is read. -/
  hungry : feed.Hungry (shut true) → result ≠ .ok () ∧ filled.Hungry (shut true)
  /-- A child that shows something is not read. -/
  kept : feed.item.isSome = true → result = .ok () ∧ filled = feed

theorem starved_of_fill (releasing : reader.Releasing live unended shut)
    (released : shut false feed.state)
    (step : feed.fill reader combination side = (result, filled)) :
    feed.Starved reader shut result filled := by
  have filling := feed.filling_fill reader combination side
  rw [step] at filling
  have refusal := releasing.refuses released
  have rests := releasing.restsRead released
  have unread (unfilled : feed.item = none) {claim : Prop} (shown : feed.item.isSome = true) :
      claim := by simp [unfilled] at shown
  cases filling with
  | kept available =>
      refine ⟨rfl, ⟨released, rfl⟩, nofun, ?_, fun _ => ⟨rfl, rfl⟩⟩
      rintro ⟨unfilled, undone, _⟩
      rw [available unfilled] at undone
      cases undone
  | failed unfilled undone read =>
      rw [read] at refusal rests
      refine ⟨rfl, rests, ?_, ?_, unread unfilled⟩
      · rintro _ ⟨⟩
        cases refusal with
        | violation violates => exact violates
      · intro hungry
        have restsCut := releasing.restsRead hungry.state
        rw [read] at restsCut
        exact ⟨nofun, unfilled, undone, restsCut.shut⟩
  | ended unfilled undone read =>
      rw [read] at rests
      refine ⟨rfl, rests, nofun, ?_, unread unfilled⟩
      intro hungry
      have refusalCut := releasing.refuses hungry.state
      rw [read] at refusalCut
      cases refusalCut.eq_nothing.2
  | found unfilled undone read =>
      rw [read] at refusal
      cases refusal.eq_nothing.1
  | refused unfilled undone read =>
      rw [read] at refusal
      cases refusal.eq_nothing.1

end Feed

/-! ## Rounds -/

namespace Pair

variable {σ τ : Type} {left : Reader σ} {right : Reader τ} {combination : Combination}
  {pair filled after : Pair σ τ}

/-- Whether the heads that are shown are enough to take one. -/
def Heads : Combination → Pair σ τ → Prop
  | .union, pair => pair.left.item.isSome = true ∨ pair.right.item.isSome = true
  | .intersection, pair => pair.left.item.isSome = true ∧ pair.right.item.isSome = true

/--
Whether a round has to read a child in a state of the given kind.  An intersection reads its right
child only if the left one shows an identity.
-/
def Waits (combination : Combination) (goodLeft : σ → Prop) (goodRight : τ → Prop)
    (pair : Pair σ τ) : Prop :=
  pair.left.Hungry goodLeft ∨ pair.right.Hungry goodRight ∧
    (combination = .intersection → pair.left.item.isSome = true ∧ pair.left.done = false)

theorem Heads.congr (heads : after.Heads combination)
    (left : pair.left.item = after.left.item) (right : pair.right.item = after.right.item) :
    pair.Heads combination := by
  cases combination with
  | union => rwa [Heads, left, right]
  | intersection => rwa [Heads, left, right]

/-- The heads that a round takes. -/
inductive Took (filled after : Pair σ τ) : Prop
  | left (shown : filled.left.item.isSome = true) (left : after.left = filled.left.take)
      (right : after.right = filled.right)
  | right (shown : filled.right.item.isSome = true) (left : after.left = filled.left)
      (right : after.right = filled.right.take)
  | both (shown : filled.left.item.isSome = true) (left : after.left = filled.left.take)
      (right : after.right = filled.right.take)

/-- Everything that a round of a combination can come to. -/
inductive Turn (combination : Combination) (left : Reader σ) (right : Reader τ) (pair : Pair σ τ) :
    Option Yield × Pair σ τ → Prop
  | leftFailed {error : QueryError} {leftFeed : Feed σ}
      (leftStep : pair.left.fill left combination .left = (.error error, leftFeed)) :
      Turn combination left right pair (some (.error error), { pair with left := leftFeed })
  | leftEnded {leftFeed : Feed σ}
      (leftStep : pair.left.fill left combination .left = (.ok (), leftFeed))
      (early : combination = .intersection) (done : leftFeed.done = true) :
      Turn combination left right pair (some (.ok none), { pair with left := leftFeed })
  | rightFailed {error : QueryError} {leftFeed : Feed σ} {rightFeed : Feed τ}
      (leftStep : pair.left.fill left combination .left = (.ok (), leftFeed))
      (undone : combination = .intersection → leftFeed.done = false)
      (rightStep : pair.right.fill right combination .right = (.error error, rightFeed)) :
      Turn combination left right pair
        (some (.error error), { pair with left := leftFeed, right := rightFeed })
  | ended {leftFeed : Feed σ} {rightFeed : Feed τ}
      (leftStep : pair.left.fill left combination .left = (.ok (), leftFeed))
      (rightStep : pair.right.fill right combination .right = (.ok (), rightFeed))
      (finished : Heads combination { pair with left := leftFeed, right := rightFeed } →
        combination = .intersection ∧ rightFeed.done = true) :
      Turn combination left right pair
        (some (.ok none), { pair with left := leftFeed, right := rightFeed })
  | took {leftFeed : Feed σ} {rightFeed : Feed τ} {answer : Option Yield} {after : Pair σ τ}
      (leftStep : pair.left.fill left combination .left = (.ok (), leftFeed))
      (undone : combination = .intersection → leftFeed.done = false)
      (rightStep : pair.right.fill right combination .right = (.ok (), rightFeed))
      (heads : Heads combination { pair with left := leftFeed, right := rightFeed })
      (unfailed : ∀ error, answer ≠ some (.error error)) (goesOn : answer ≠ some (.ok none))
      (took : Took { pair with left := leftFeed, right := rightFeed } after) :
      Turn combination left right pair (answer, after)

/-- A round without an answer neither failed nor came to the end. -/
theorem silence_ne :
    (∀ error, (none : Option Yield) ≠ some (.error error)) ∧
      (none : Option Yield) ≠ some (.ok none) :=
  ⟨fun _ => (Option.some_ne_none _).symm, (Option.some_ne_none _).symm⟩

theorem emitOnce_ne (taken : Pair σ τ) (id : EntityId) :
    (∀ error, (taken.emitOnce id).1 ≠ some (.error error)) ∧
      (taken.emitOnce id).1 ≠ some (.ok none) := by
  rw [emitOnce]
  split <;> simp

theorem Took.emitOnce {taken : Pair σ τ} (took : Took filled taken) (id : EntityId) :
    Took filled (taken.emitOnce id).2 := by
  rw [Pair.emitOnce]
  split
  · exact took
  · cases took with
    | left shown left right => exact .left shown left right
    | right shown left right => exact .right shown left right
    | both shown left right => exact .both shown left right

theorem turn_unionStep (pair : Pair σ τ) :
    pair.Turn .union left right (pair.unionStep left right) := by
  rw [unionStep, fillBoth, fillLeft]
  rcases leftStep : pair.left.fill left .union .left with ⟨error | _, leftFeed⟩
  · exact .leftFailed leftStep
  simp only [fillRight]
  rcases rightStep : pair.right.fill right .union .right with ⟨error | _, rightFeed⟩
  · exact .rightFailed leftStep Combination.noConfusion rightStep
  dsimp only
  split
  · rename_i nothing
    obtain ⟨leftItem, rightItem⟩ := takeLeast_eq_none nothing
    refine .ended leftStep rightStep ?_
    rintro (shown | shown)
    · rw [show leftFeed.item = none from leftItem] at shown
      cases shown
    · rw [show rightFeed.item = none from rightItem] at shown
      cases shown
  · rename_i id taken least
    have took : Took { pair with left := leftFeed, right := rightFeed } taken ∧
        Heads .union { pair with left := leftFeed, right := rightFeed } := by
      rcases takeLeast_cases least with ⟨item, _, rfl⟩ | ⟨item, _, rfl⟩ | ⟨item, _, rfl⟩
      · have shown := Option.isSome_of_eq_some item
        exact ⟨.left shown rfl rfl, .inl shown⟩
      · have shown := Option.isSome_of_eq_some item
        exact ⟨.right shown rfl rfl, .inr shown⟩
      · have shown := Option.isSome_of_eq_some item
        exact ⟨.both shown rfl rfl, .inl shown⟩
    obtain ⟨unfailed, goesOn⟩ := emitOnce_ne taken id
    exact .took leftStep Combination.noConfusion rightStep took.2 unfailed goesOn
      (took.1.emitOnce id)

theorem turn_intersectionStep (pair : Pair σ τ) :
    pair.Turn .intersection left right (pair.intersectionStep left right) := by
  rw [intersectionStep, fillUntilEnd, fillLeft]
  rcases leftStep : pair.left.fill left .intersection .left with ⟨error | _, leftFeed⟩
  · exact .leftFailed leftStep
  cases leftDone : leftFeed.done with
  | true =>
      simp only [leftDone, if_true, ended, Bool.true_or]
      exact .leftEnded leftStep rfl leftDone
  | false =>
      simp only [leftDone, Bool.false_eq_true, if_false, fillRight]
      rcases rightStep : pair.right.fill right .intersection .right with ⟨error | _, rightFeed⟩
      · exact .rightFailed leftStep (fun _ => leftDone) rightStep
      simp only [ended, leftDone, Bool.false_or]
      split
      · exact .ended leftStep rightStep fun _ => ⟨rfl, by assumption⟩
      · split
        · rename_i leftId rightId leftItem rightItem
          have leftShown := Option.isSome_of_eq_some leftItem
          have rightShown := Option.isSome_of_eq_some rightItem
          have turn {answer : Option Yield} {after : Pair σ τ}
              (said : (∀ error, answer ≠ some (.error error)) ∧ answer ≠ some (.ok none))
              (took : Took { pair with left := leftFeed, right := rightFeed } after) :
              pair.Turn .intersection left right (answer, after) :=
            .took leftStep (fun _ => leftDone) rightStep ⟨leftShown, rightShown⟩ said.1 said.2 took
          split
          · exact turn silence_ne (.left leftShown rfl rfl)
          · split
            · exact turn silence_ne (.right rightShown rfl rfl)
            · exact turn (emitOnce_ne _ leftId) (.emitOnce (.both leftShown rfl rfl) leftId)
        · rename_i missing
          refine .ended leftStep rightStep ?_
          rintro ⟨leftShown, rightShown⟩
          obtain ⟨leftId, leftItem⟩ := Option.isSome_iff_exists.1 leftShown
          obtain ⟨rightId, rightItem⟩ := Option.isSome_iff_exists.1 rightShown
          exact (missing leftId rightId leftItem rightItem).elim

/-! ## Pairs that are held -/

section Held

variable {liveLeft unendedLeft : σ → Prop} {shutLeft : Bool → σ → Prop}
  {liveRight unendedRight : τ → Prop} {shutRight : Bool → τ → Prop}

/--
A pair that is held, between two rounds: where its heads are enough to take one, a child before its
end has to be read first.
-/
structure Held (combination : Combination) (liveLeft unendedLeft : σ → Prop)
    (liveRight unendedRight : τ → Prop) (pair : Pair σ τ) : Prop where
  left : pair.left.Live liveLeft unendedLeft
  right : pair.right.Live liveRight unendedRight
  settled : pair.Heads combination → pair.Waits combination unendedLeft unendedRight

theorem Held.withPending (held : pair.Held combination liveLeft unendedLeft liveRight unendedRight)
    (pending : Option (Option EntityId)) :
    ({ pair with pending } : Pair σ τ).Held combination liveLeft unendedLeft liveRight
      unendedRight :=
  ⟨held.left, held.right, fun heads => held.settled (heads.congr rfl rfl)⟩

/-- What rounds leave of a pair that is held, whether they answer or not. -/
structure Turned (combination : Combination) (liveLeft unendedLeft : σ → Prop)
    (liveRight unendedRight : τ → Prop) (pair : Pair σ τ) (answer : Option Yield)
    (after : Pair σ τ) : Prop where
  held : after.Held combination liveLeft unendedLeft liveRight unendedRight
  goesOn : answer ≠ some (.ok none) → after.Waits combination unendedLeft unendedRight
  took : (∀ error, answer ≠ some (.error error)) → answer ≠ some (.ok none) →
    pair.Waits combination unendedLeft unendedRight

/-- Rounds that take a head had to read a child for it. -/
theorem Held.waits_of_heads {leftFeed : Feed σ} {rightFeed : Feed τ}
    {result : Except QueryError Unit}
    (held : pair.Held combination liveLeft unendedLeft liveRight unendedRight)
    (leftFilled : pair.left.Filled liveLeft unendedLeft result leftFeed)
    (rightFilled : pair.right.Filled liveRight unendedRight result rightFeed)
    (heads : Heads combination { pair with left := leftFeed, right := rightFeed }) :
    pair.Waits combination unendedLeft unendedRight := by
  cases combination with
  | union =>
      rcases heads with shown | shown
      · rcases leftFilled.shown shown with hungry | rfl
        · exact .inl hungry
        · exact held.settled (.inl shown)
      · rcases rightFilled.shown shown with hungry | rfl
        · exact .inr ⟨hungry, nofun⟩
        · exact held.settled (.inr shown)
  | intersection =>
      obtain ⟨leftShown, rightShown⟩ := heads
      rcases leftFilled.shown leftShown with hungry | rfl
      · exact .inl hungry
      · rcases rightFilled.shown rightShown with hungry | rfl
        · exact .inr ⟨hungry, fun _ => ⟨leftShown, (held.left.shown leftShown).1⟩⟩
        · exact held.settled ⟨leftShown, rightShown⟩

/-- A head that was taken leaves its child to be read. -/
theorem Took.held (took : Took filled after)
    (leftLive : filled.left.Live liveLeft unendedLeft)
    (rightLive : filled.right.Live liveRight unendedRight) (heads : filled.Heads combination) :
    after.Held combination liveLeft unendedLeft liveRight unendedRight ∧
      after.Waits combination unendedLeft unendedRight := by
  cases took with
  | left shown left right =>
      have waits : after.Waits combination unendedLeft unendedRight :=
        .inl (left ▸ leftLive.hungry_take shown)
      exact ⟨⟨left ▸ leftLive.take, right ▸ rightLive, fun _ => waits⟩, waits⟩
  | right shown left right =>
      have waits : after.Waits combination unendedLeft unendedRight := by
        refine .inr ⟨right ▸ rightLive.hungry_take shown, ?_⟩
        rintro rfl
        rw [left]
        exact ⟨heads.1, (leftLive.shown heads.1).1⟩
      exact ⟨⟨left ▸ leftLive, right ▸ rightLive.take, fun _ => waits⟩, waits⟩
  | both shown left right =>
      have waits : after.Waits combination unendedLeft unendedRight :=
        .inl (left ▸ leftLive.hungry_take shown)
      exact ⟨⟨left ▸ leftLive.take, right ▸ rightLive.take, fun _ => waits⟩, waits⟩

variable (leftReleasing : left.Releasing liveLeft unendedLeft shutLeft)
  (rightReleasing : right.Releasing liveRight unendedRight shutRight)
include leftReleasing rightReleasing

theorem Turn.turned {answer : Option Yield}
    (turn : pair.Turn combination left right (answer, after))
    (held : pair.Held combination liveLeft unendedLeft liveRight unendedRight) :
    Turned combination liveLeft unendedLeft liveRight unendedRight pair answer after := by
  cases turn with
  | leftFailed leftStep =>
      have leftFilled := held.left.fill leftReleasing leftStep
      have hungry := leftFilled.failed rfl
      exact ⟨⟨leftFilled.live, held.right, fun _ => .inl hungry⟩, fun _ => .inl hungry,
        fun unfailed _ => absurd rfl (unfailed _)⟩
  | leftEnded leftStep early done =>
      have leftFilled := held.left.fill leftReleasing leftStep
      refine ⟨⟨leftFilled.live, held.right, ?_⟩, fun goesOn => absurd rfl goesOn,
        fun _ goesOn => absurd rfl goesOn⟩
      subst early
      rintro ⟨leftShown, _⟩
      rw [(leftFilled.live.shown leftShown).1] at done
      cases done
  | @rightFailed error leftFeed rightFeed leftStep undone rightStep =>
      have leftFilled := held.left.fill leftReleasing leftStep
      have rightFilled := held.right.fill rightReleasing rightStep
      have waits : Waits combination unendedLeft unendedRight
          { pair with left := leftFeed, right := rightFeed } := by
        refine .inr ⟨rightFilled.failed rfl, fun only =>
          ⟨Option.isSome_iff_ne_none.2 ?_, undone only⟩⟩
        intro nothing
        rw [Feed.done_of_fill leftStep nothing] at undone
        cases undone only
      exact ⟨⟨leftFilled.live, rightFilled.live, fun _ => waits⟩, fun _ => waits,
        fun unfailed _ => absurd rfl (unfailed _)⟩
  | ended leftStep rightStep finished =>
      have leftFilled := held.left.fill leftReleasing leftStep
      have rightFilled := held.right.fill rightReleasing rightStep
      refine ⟨⟨leftFilled.live, rightFilled.live, ?_⟩, fun goesOn => absurd rfl goesOn,
        fun _ goesOn => absurd rfl goesOn⟩
      intro heads
      obtain ⟨rfl, done⟩ := finished heads
      rw [(rightFilled.live.shown heads.2).1] at done
      cases done
  | took leftStep undone rightStep heads unfailed goesOn took =>
      have leftFilled := held.left.fill leftReleasing leftStep
      have rightFilled := held.right.fill rightReleasing rightStep
      obtain ⟨heldAfter, waits⟩ := took.held leftFilled.live rightFilled.live heads
      exact ⟨heldAfter, fun _ => waits, fun _ _ => held.waits_of_heads leftFilled rightFilled heads⟩

/-- Round after round, up to the answer. -/
theorem Held.fetch {round : Round left right}
    (turning : ∀ pair, Turn combination left right pair (round.step pair))
    (held : pair.Held combination liveLeft unendedLeft liveRight unendedRight) :
    Turned combination liveLeft unendedLeft liveRight unendedRight pair
      (some (pair.fetch round).1) (pair.fetch round).2 := by
  induction pair using Pair.fetch.induct round with
  | case1 pair found after step =>
      rw [fetch_of_answer step]
      exact (step ▸ turning pair).turned leftReleasing rightReleasing held
  | case2 pair after step inductionHypothesis =>
      rw [fetch_of_silence step]
      have turned := (step ▸ turning pair).turned leftReleasing rightReleasing held
      have rest := inductionHypothesis turned.held
      exact ⟨rest.held, rest.goesOn, fun _ _ => turned.took silence_ne.1 silence_ne.2⟩

end Held

/-! ## Pairs that were released -/

section Released

variable {liveLeft unendedLeft : σ → Prop} {shutLeft : Bool → σ → Prop}
  {liveRight unendedRight : τ → Prop} {shutRight : Bool → τ → Prop} {cut : Bool}

/--
A pair whose children were released, between two rounds: where its heads are enough to take one, a
child that was cut short has to be read first.
-/
structure Released (combination : Combination) (shutLeft : Bool → σ → Prop)
    (shutRight : Bool → τ → Prop) (cut : Bool) (pair : Pair σ τ) : Prop where
  left : shutLeft false pair.left.state
  right : shutRight false pair.right.state
  settled : pair.Heads combination → pair.Waits combination (shutLeft true) (shutRight true)
  waits : cut = true → pair.Waits combination (shutLeft true) (shutRight true)

theorem Released.withPending (released : pair.Released combination shutLeft shutRight cut)
    (pending : Option (Option EntityId)) :
    ({ pair with pending } : Pair σ τ).Released combination shutLeft shutRight cut :=
  ⟨released.left, released.right,
    fun heads => released.settled (heads.congr rfl rfl), released.waits⟩

variable (leftReleasing : left.Releasing liveLeft unendedLeft shutLeft)
  (rightReleasing : right.Releasing liveRight unendedRight shutRight)
include leftReleasing rightReleasing

/-- Filling a child that was cut short and has to be read reports a violation. -/
theorem Turn.refuses_of_waits {answer : Option Yield}
    (turn : pair.Turn combination left right (answer, after))
    (leftShut : shutLeft false pair.left.state) (rightShut : shutRight false pair.right.state)
    (waits : pair.Waits combination (shutLeft true) (shutRight true)) :
    ∃ error : QueryError, answer = some (.error error) ∧
      error.failure.isInvariantViolation = true ∧
        after.Waits combination (shutLeft true) (shutRight true) := by
  cases turn with
  | leftFailed leftStep =>
      have starved := Feed.starved_of_fill leftReleasing leftShut leftStep
      refine ⟨_, rfl, starved.violates rfl, ?_⟩
      rcases waits with hungry | ⟨hungry, first⟩
      · exact .inl (starved.hungry hungry).2
      · refine .inr ⟨hungry, ?_⟩
        intro only
        cases (starved.kept (first only).1).1
  | leftEnded leftStep early done =>
      have starved := Feed.starved_of_fill leftReleasing leftShut leftStep
      rcases waits with hungry | ⟨hungry, first⟩
      · exact absurd rfl (starved.hungry hungry).1
      · obtain ⟨shown, undone⟩ := first early
        rw [(starved.kept shown).2, undone] at done
        cases done
  | rightFailed leftStep _ rightStep =>
      have leftStarved := Feed.starved_of_fill leftReleasing leftShut leftStep
      have rightStarved := Feed.starved_of_fill rightReleasing rightShut rightStep
      refine ⟨_, rfl, rightStarved.violates rfl, ?_⟩
      rcases waits with hungry | ⟨hungry, first⟩
      · exact absurd rfl (leftStarved.hungry hungry).1
      · refine .inr ⟨(rightStarved.hungry hungry).2, ?_⟩
        intro only
        obtain ⟨shown, undone⟩ := first only
        rw [(leftStarved.kept shown).2]
        exact ⟨shown, undone⟩
  | ended leftStep rightStep | took leftStep _ rightStep =>
      have leftStarved := Feed.starved_of_fill leftReleasing leftShut leftStep
      have rightStarved := Feed.starved_of_fill rightReleasing rightShut rightStep
      rcases waits with hungry | ⟨hungry, _⟩
      · exact absurd rfl (leftStarved.hungry hungry).1
      · exact absurd rfl (rightStarved.hungry hungry).1

/-- A round of a pair that was released answers, and it refuses. -/
theorem Turn.refuses {answer : Option Yield}
    (turn : pair.Turn combination left right (answer, after))
    (released : pair.Released combination shutLeft shutRight cut) :
    (∃ found, answer = some found ∧ Refusal none cut found) ∧
      after.Released combination shutLeft shutRight cut ∧
        left.cursors after.left.state = left.cursors pair.left.state ∧
          right.cursors after.right.state = right.cursors pair.right.state := by
  have violating := turn.refuses_of_waits leftReleasing rightReleasing released.left released.right
  have keeps (waits : pair.Waits combination (shutLeft true) (shutRight true)) :
      after.Waits combination (shutLeft true) (shutRight true) := by
    obtain ⟨_, _, _, waitsAfter⟩ := violating waits
    exact waitsAfter
  have uncut (succeeds : ∀ error, answer ≠ some (.error error)) : cut = false := by
    rw [← Bool.not_eq_true]
    intro isCut
    obtain ⟨error, failed, _⟩ := violating (released.waits isCut)
    exact succeeds error failed
  have remains (leftShut : shutLeft false after.left.state)
      (rightShut : shutRight false after.right.state)
      (leftItem : after.left.item = pair.left.item)
      (rightItem : after.right.item = pair.right.item) :
      after.Released combination shutLeft shutRight cut := by
    refine ⟨leftShut, rightShut, ?_, fun isCut => keeps (released.waits isCut)⟩
    intro heads
    exact keeps (released.settled (heads.congr leftItem.symm rightItem.symm))
  cases turn with
  | leftFailed leftStep =>
      have starved := Feed.starved_of_fill leftReleasing released.left leftStep
      exact ⟨⟨_, rfl, .violation (starved.violates rfl)⟩,
        remains starved.rests.shut released.right starved.item rfl, starved.rests.cursors, rfl⟩
  | leftEnded leftStep =>
      have starved := Feed.starved_of_fill leftReleasing released.left leftStep
      exact ⟨⟨_, rfl, .nothing (uncut nofun)⟩,
        remains starved.rests.shut released.right starved.item rfl, starved.rests.cursors, rfl⟩
  | rightFailed leftStep _ rightStep =>
      have leftStarved := Feed.starved_of_fill leftReleasing released.left leftStep
      have starved := Feed.starved_of_fill rightReleasing released.right rightStep
      exact ⟨⟨_, rfl, .violation (starved.violates rfl)⟩,
        remains leftStarved.rests.shut starved.rests.shut leftStarved.item starved.item,
        leftStarved.rests.cursors, starved.rests.cursors⟩
  | ended leftStep rightStep =>
      have leftStarved := Feed.starved_of_fill leftReleasing released.left leftStep
      have starved := Feed.starved_of_fill rightReleasing released.right rightStep
      exact ⟨⟨_, rfl, .nothing (uncut nofun)⟩,
        remains leftStarved.rests.shut starved.rests.shut leftStarved.item starved.item,
        leftStarved.rests.cursors, starved.rests.cursors⟩
  | took leftStep undone rightStep heads unfailed _ =>
      -- What would be taken was shown before, but then filling had reported a violation.
      have leftStarved := Feed.starved_of_fill leftReleasing released.left leftStep
      have starved := Feed.starved_of_fill rightReleasing released.right rightStep
      obtain ⟨error, failed, _⟩ := violating
        (released.settled (heads.congr leftStarved.item.symm starved.item.symm))
      exact absurd failed (unfailed error)

end Released

end Pair

end EntityQuery
