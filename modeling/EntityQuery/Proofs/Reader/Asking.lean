import EntityQuery.Proofs.Reader.Emission
import EntityQuery.Proofs.Reader.Combination

/-!
# Asking ahead

A reader that is asked whether more is left may have to look ahead, and remembers what it found: a
probe the answer of its cursor, a walk the source that it found, a combination the answer of its
rounds.  However it remembers, two laws say what asking is.  Asking a second time changes nothing,
and reading behind a question gives the answer and the state that reading without it gives.  A third
law says that an end is final: the state in which a reading finds nothing is the state that the
next reading leaves, so no cursor moves any more.

The laws hold whatever the indexes hold, and for combinations whatever the children are.  Only a
combination needs more than the single calls: what it remembers as an end must be one.
-/

namespace EntityQuery

/--
Asking is a pure question and an end is final.  The predicate describes the states that reading from
a fresh state can lead to.
-/
structure Reader.Steady {σ : Type} (reader : Reader σ) (fit : σ → Prop) : Prop where
  /-- Asking again changes nothing, and reading goes on as if nothing had been asked. -/
  ask {state asked : σ} {more : Bool} : fit state → reader.hasNext state = (.ok more, asked) →
    fit asked ∧ reader.hasNext asked = (.ok more, asked) ∧ reader.next asked = reader.next state
  read {state after : σ} {found : Option EntityId} : fit state →
    reader.next state = (.ok found, after) → fit after
  /-- Behind the end reading leaves the state as it is, and asking moves no cursor. -/
  final {state after : σ} : fit state → reader.next state = (.ok none, after) →
    reader.next after = (.ok none, after) ∧
      reader.cursors (reader.hasNext after).2 = reader.cursors after

/-! ## Lists -/

theorem emptyReader_steady : emptyReader.Steady fun _ => True where
  ask := by
    rintro state asked more _ ⟨⟩
    exact ⟨trivial, rfl, rfl⟩
  read _ _ := trivial
  final := by
    rintro state after _ ⟨⟩
    exact ⟨rfl, rfl⟩

theorem scriptReader_steady : scriptReader.Steady fun _ => True where
  ask := by
    rintro script asked more _ ⟨⟩
    exact ⟨trivial, rfl, rfl⟩
  read _ _ := trivial
  final := by
    intro script after _ step
    cases script with
    | nil =>
        cases step
        exact ⟨rfl, rfl⟩
    | cons item rest => cases item <;> cases step

namespace SetWalk

/-- A walk that stands at most one past the last member, and on some member if it was asked. -/
structure Fit (walk : SetWalk) : Prop where
  inRange : ∀ set ∈ walk.held, ∀ rank ∈ walk.position, rank ≤ set.size
  standing : walk.probed = true → walk.position.isSome = true

theorem fit_ofSet (set : IdSet) : (ofSet set).Fit := ⟨nofun, nofun⟩

theorem ahead_le (set : IdSet) (position : Option Nat) : ahead set position ≤ set.size := by
  cases position with
  | none => exact Nat.zero_le _
  | some rank => exact Nat.min_le_right _ _

/-- A step keeps a walk fit, whether it was asked for or not. -/
theorem Fit.stepped {walk : SetWalk} (fit : walk.Fit) {set : IdSet} (held : walk.held = some set)
    (probed : Bool) : ({ walk.stepped set with probed } : SetWalk).Fit := by
  rw [SetWalk.stepped]
  split
  · rename_i asked
    exact ⟨fit.inRange, fun _ => fit.standing asked⟩
  · constructor
    · intro other otherHeld
      rw [show walk.held = some other from otherHeld] at held
      obtain rfl := Option.some.inj held
      rintro rank ⟨⟩
      exact ahead_le _ walk.position
    · intro _
      rfl

/-- Reading at one past the last member stays there. -/
theorem next_past_end (set : IdSet) :
    next ⟨some set, some set.size, false⟩ = (.ok none, ⟨some set, some set.size, false⟩) := by
  have standing : min (set.size + 1) set.size = set.size := by omega
  have absent : set.get? set.size = none := List.getElem?_eq_none (Nat.le_refl set.size)
  simp [next, SetWalk.stepped, current, ahead, absent]

/-- A walk that is fit stands one past the last member when it has nothing to read. -/
theorem Fit.position_eq {walk : SetWalk} (fit : walk.Fit) {set : IdSet}
    (held : walk.held = some set) (standing : walk.position.isSome = true)
    (nothing : walk.current set = none) : walk.position = some set.size := by
  obtain ⟨rank, stands⟩ := Option.isSome_iff_exists.1 standing
  have inRange : rank ≤ set.size := fit.inRange set held rank stands
  rw [current, stands] at nothing
  have outside : set.size ≤ rank := List.getElem?_eq_none_iff.1 nothing
  rw [stands, Nat.le_antisymm inRange outside]

end SetWalk

theorem setReader_steady : setReader.Steady SetWalk.Fit where
  ask {walk asked more} fit step := by
    change walk.hasNext = _ at step
    rw [SetWalk.hasNext] at step
    split at step
    · cases step
    · rename_i set held
      cases step
      refine ⟨fit.stepped held true, ?_, ?_⟩
      · obtain ⟨_, position, probed⟩ := walk
        cases held
        cases probed <;> rfl
      · obtain ⟨_, position, probed⟩ := walk
        cases held
        cases probed <;> rfl
  read {walk after found} fit step := by
    change walk.next = _ at step
    rw [SetWalk.next] at step
    split at step
    · cases step
    · rename_i set held
      cases step
      exact fit.stepped held false
  final {walk after} fit step := by
    refine ⟨?_, rfl⟩
    change walk.next = _ at step
    rw [SetWalk.next] at step
    split at step
    · cases step
    · rename_i set held
      obtain ⟨nothing, rfl⟩ := Prod.mk.inj step
      have standing : (walk.stepped set).position.isSome = true := by
        rw [SetWalk.stepped]
        split
        · rename_i asked
          exact fit.standing asked
        · rfl
      have heldStill : (walk.stepped set).held = some set := by
        rw [SetWalk.stepped]
        split <;> exact held
      have position := (fit.stepped held false).position_eq heldStill standing
        (Except.ok.inj nothing)
      have after : ({ walk.stepped set with probed := false } : SetWalk) =
          ⟨some set, some set.size, false⟩ := by
        dsimp only at position ⊢
        rw [heldStill, position]
      rw [after]
      exact SetWalk.next_past_end set

/-! ## Probes -/

namespace Probe

variable {probe asked after : Probe} {more : Bool}

theorem hasNext_again (step : probe.hasNext = (.ok more, asked)) :
    asked.hasNext = (.ok more, asked) := by
  have start := step
  rw [hasNext] at step
  split at step
  · cases step
    exact start
  · split at step
    · cases step
      exact start
    · split at step
      · split at step
        · cases step
        · cases step
          cases more <;> rfl
      · cases step

/-- Reading behind a question leads where reading alone does. -/
theorem advance_asked (step : probe.hasNext = (.ok more, asked)) :
    asked.advance = probe.advance := by
  rw [advance, advance, hasNext_again step, step]

theorem hasNext_of_advance_none (step : probe.advance = (.ok none, after)) :
    probe.hasNext = (.ok false, after) := by
  rw [advance] at step
  split at step
  · cases step
  · rename_i asking
    cases step
    exact asking
  · dsimp only at step
    split at step <;> cases step

/-- At its end a probe stays as it is, whether it is asked or read. -/
theorem hasNext_final (step : probe.advance = (.ok none, after)) :
    after.hasNext = (.ok false, after) :=
  hasNext_again (hasNext_of_advance_none step)

theorem advance_final (step : probe.advance = (.ok none, after)) :
    after.advance = (.ok none, after) := by
  rw [advance, hasNext_final step]

end Probe

/-! ## Indexes -/

theorem EntityWalk.advance_of_next_none {walk after : EntityWalk}
    (step : walk.next = (.ok none, after)) :
    ∃ probe, walk.probe.advance = (.ok none, probe) ∧ after = { walk with probe } := by
  rw [next] at step
  split at step
  · cases step
  · rename_i record probe advanced
    cases record with
    | none =>
        cases step
        exact ⟨probe, advanced, rfl⟩
    | some record =>
        obtain ⟨decoded, _⟩ := Prod.mk.inj step
        rw [decode] at decoded
        cases key : Layout.decodeEntityKey walk.typeId record.key with
        | error error =>
            rw [key] at decoded
            cases decoded
        | ok id =>
            rw [key] at decoded
            cases decoded

theorem entityReader_steady : entityReader.Steady fun _ => True where
  ask {walk asked more} _ step := by
    change walk.answer walk.probe.hasNext = _ at step
    rcases asking : walk.probe.hasNext with ⟨answer, probe⟩
    rw [asking] at step
    cases step
    refine ⟨trivial, ?_, ?_⟩
    · show EntityWalk.answer _ probe.hasNext = _
      rw [Probe.hasNext_again asking]
      rfl
    · show EntityWalk.next _ = EntityWalk.next _
      rw [EntityWalk.next, EntityWalk.next, Probe.advance_asked asking]
  read _ _ := trivial
  final {walk after} _ step := by
    obtain ⟨probe, advanced, rfl⟩ := EntityWalk.advance_of_next_none step
    constructor
    · show EntityWalk.next _ = _
      rw [EntityWalk.next, Probe.advance_final advanced]
      rfl
    · show [probe.hasNext.2.cursor.usage] = [probe.cursor.usage]
      rw [Probe.hasNext_final advanced]

namespace LinkWalk

variable {walk after : LinkWalk}

theorem advance_of_nextEdge_none (step : walk.nextEdge = (.ok none, after)) :
    ∃ probe, walk.probe.advance = (.ok none, probe) ∧ after = ⟨walk.typeId, probe, none⟩ := by
  rw [nextEdge] at step
  split at step
  · cases step
  · rename_i probe advanced
    cases step
    exact ⟨probe, advanced, rfl⟩
  · rw [takeEdge] at step
    split at step <;> cases step

/-- At its end a walk stays as it is. -/
theorem nextEdge_final (step : walk.nextEdge = (.ok none, after)) :
    after.nextEdge = (.ok none, after) := by
  obtain ⟨probe, advanced, rfl⟩ := advance_of_nextEdge_none step
  rw [nextEdge, Probe.advance_final advanced]

theorem nextEdge_of_next_none (step : walk.next = (.ok none, after)) :
    walk.nextEdge = (.ok none, after) := by
  rw [next] at step
  rcases reading : walk.nextEdge with ⟨error | edge, links⟩
  · rw [reading] at step
    cases step
  · rw [reading] at step
    cases edge with
    | none =>
        cases step
        rfl
    | some edge => cases step

end LinkWalk

theorem linkReader_steady : linkReader.Steady fun _ => True where
  ask {walk asked more} _ step := by
    change walk.answer walk.probe.hasNext = _ at step
    rcases asking : walk.probe.hasNext with ⟨answer, probe⟩
    rw [asking] at step
    cases step
    refine ⟨trivial, ?_, ?_⟩
    · show LinkWalk.answer _ probe.hasNext = _
      rw [Probe.hasNext_again asking]
      rfl
    · show LinkWalk.next _ = LinkWalk.next _
      rw [LinkWalk.next, LinkWalk.next, LinkWalk.nextEdge, LinkWalk.nextEdge,
        Probe.advance_asked asking]
  read _ _ := trivial
  final {walk after} _ step := by
    have reading := LinkWalk.nextEdge_of_next_none step
    constructor
    · show LinkWalk.next after = _
      rw [LinkWalk.next, LinkWalk.nextEdge_final reading]
      rfl
    · obtain ⟨probe, advanced, rfl⟩ := LinkWalk.advance_of_nextEdge_none reading
      show [probe.hasNext.2.cursor.usage] = [probe.cursor.usage]
      rw [Probe.hasNext_final advanced]

/-- A reader that looks ahead is steady if filling again changes nothing, and nothing is taken where
nothing was found. -/
theorem Reader.LooksAhead.steady {σ : Type} {reader : Reader σ}
    {fill : σ → Except QueryError Unit × σ} {ahead : σ → Option EntityId} {take : σ → σ}
    (looks : reader.LooksAhead fill ahead take)
    (again : ∀ {state filled}, fill state = (.ok (), filled) → fill filled = (.ok (), filled))
    (rests : ∀ {state}, ahead state = none → take state = state) :
    reader.Steady fun _ => True where
  ask {state asked more} _ step := by
    obtain ⟨filling, rfl⟩ := looks.fill_of_hasNext step
    have onceMore := looks.filled (again filling)
    refine ⟨trivial, onceMore.1, ?_⟩
    rw [onceMore.2, (looks.filled filling).2]
  read _ _ := trivial
  final {state after} _ step := by
    obtain ⟨filled, filling, nothing, rfl⟩ := looks.fill_of_next step
    rw [rests nothing.symm]
    have onceMore := looks.filled (again filling)
    rw [← nothing, rests nothing.symm] at onceMore
    exact ⟨onceMore.2, congrArg (fun answer => reader.cursors answer.2) onceMore.1⟩

namespace SourceWalk

variable {walk filled : SourceWalk}

/-- A walk that found nothing finds nothing again. -/
theorem seek_again (step : walk.seek = (.ok (), filled)) (nothing : filled.lookahead = none) :
    filled.seek = (.ok (), filled) := by
  induction walk using seek.induct with
  | case1 walk error links reading =>
      rw [seek, reading] at step
      cases step
  | case2 walk links reading =>
      rw [seek, reading] at step
      cases step
      rw [seek, LinkWalk.nextEdge_final reading]
  | case3 walk edge links reading repeated inductionHypothesis =>
      rw [seek, reading] at step
      dsimp only at step
      rw [if_pos repeated] at step
      exact inductionHypothesis step
  | case4 walk edge links reading fresh =>
      rw [seek, reading] at step
      simp only [fresh, if_false] at step
      cases step
      cases nothing

theorem fill_again (step : walk.fill = (.ok (), filled)) : filled.fill = (.ok (), filled) := by
  cases found : filled.lookahead with
  | some id => rw [fill, found, Option.isSome_some, if_pos rfl]
  | none =>
      rw [fill] at step
      split at step
      · rename_i present
        cases step
        rw [found] at present
        cases present
      · rw [fill, found, Option.isSome_none, if_neg Bool.false_ne_true]
        exact seek_again step found

end SourceWalk

theorem sourceReader_steady : sourceReader.Steady fun _ => True := by
  apply sourceReader_looksAhead.steady SourceWalk.fill_again
  intro walk nothing
  cases walk
  cases nothing
  rfl

namespace JoinWalk

variable {walk filled : JoinWalk}

/-- A walk that found nothing has seen the end. -/
theorem done_of_seek (step : walk.seek = (.ok (), filled)) (nothing : filled.lookahead = none) :
    filled.done = true := by
  induction walk using seek.induct with
  | case1 walk error links reading =>
      rw [seek, reading] at step
      cases step
  | case2 walk links reading =>
      rw [seek, reading] at step
      cases step
      rfl
  | case3 walk edge links reading accepted =>
      rw [seek, reading] at step
      simp only [accepted, if_true] at step
      cases step
      cases nothing
  | case4 walk edge links reading rejected inductionHypothesis =>
      rw [seek, reading] at step
      simp only [rejected] at step
      exact inductionHypothesis step

theorem fill_again (step : walk.fill = (.ok (), filled)) : filled.fill = (.ok (), filled) := by
  have filledUp : (filled.done || filled.lookahead.isSome) = true := by
    rw [fill] at step
    split at step
    · cases step
      assumption
    · cases found : filled.lookahead with
      | some id => exact Bool.or_true _
      | none => rw [done_of_seek step found, Bool.true_or]
  rw [fill, if_pos filledUp]

end JoinWalk

theorem joinReader_steady : joinReader.Steady fun _ => True := by
  apply joinReader_looksAhead.steady JoinWalk.fill_again
  intro walk nothing
  cases walk
  cases nothing
  rfl

/-! ## Combinations -/

section Combinations

variable {σ τ : Type} {left : Reader σ} {right : Reader τ} {combination : Combination}

/-- A child that was filled stays as it is when it is filled again. -/
theorem Feed.fill_again {side : Side} {feed filled : Feed σ}
    (filling : feed.fill left combination side = (.ok (), filled)) :
    filled.fill left combination side = (.ok (), filled) := by
  have filledUp : (filled.done || filled.item.isSome) = true := by
    cases shown : filled.item with
    | some id => exact Bool.or_true _
    | none => rw [Feed.done_of_fill filling shown, Bool.true_or]
  rw [Feed.fill, if_pos filledUp]

namespace Pair

variable {pair filled : Pair σ τ}

theorem fillLeft_again (filling : pair.fillLeft left combination = (.ok (), filled)) :
    filled.fillLeft left combination = (.ok (), filled) := by
  rcases step : pair.left.fill left combination .left with ⟨result, feed⟩
  rw [fillLeft, step] at filling
  cases filling
  rw [fillLeft, Feed.fill_again step]

theorem fillRight_again (filling : pair.fillRight right combination = (.ok (), filled)) :
    filled.fillRight right combination = (.ok (), filled) := by
  rcases step : pair.right.fill right combination .right with ⟨result, feed⟩
  rw [fillRight, step] at filling
  cases filling
  rw [fillRight, Feed.fill_again step]

/-- Filling one child leaves the other, so the child that was filled first stays filled. -/
theorem fillLeft_of_fillRight (leftFilling : pair.fillLeft left combination = (.ok (), pair))
    (filling : pair.fillRight right combination = (.ok (), filled)) :
    filled.fillLeft left combination = (.ok (), filled) := by
  rcases step : pair.right.fill right combination .right with ⟨result, feed⟩
  rw [fillRight, step] at filling
  cases filling
  rcases leftStep : pair.left.fill left combination .left with ⟨leftResult, leftFeed⟩
  rw [fillLeft, leftStep] at leftFilling
  obtain ⟨rfl, same⟩ := Prod.mk.inj leftFilling
  have sameLeft : leftFeed = pair.left := congrArg Pair.left same
  rw [fillLeft, leftStep, sameLeft]

theorem fillBoth_again (filling : pair.fillBoth left right combination = (.ok (), filled)) :
    filled.fillBoth left right combination = (.ok (), filled) := by
  rw [fillBoth] at filling
  split at filling
  · cases filling
  · rename_i half leftFilling
    have leftAgain := fillLeft_of_fillRight (fillLeft_again leftFilling) filling
    rw [fillBoth, leftAgain]
    exact fillRight_again filling

theorem fillUntilEnd_again
    (filling : pair.fillUntilEnd left right combination = (.ok (), filled)) :
    filled.fillUntilEnd left right combination = (.ok (), filled) := by
  rw [fillUntilEnd] at filling
  split at filling
  · cases filling
  · rename_i half leftFilling
    have again := fillLeft_again leftFilling
    split at filling
    · rename_i ended
      cases filling
      rw [fillUntilEnd, again]
      exact if_pos ended
    · have leftAgain := fillLeft_of_fillRight again filling
      rw [fillUntilEnd, leftAgain]
      dsimp only
      split
      · rfl
      · exact fillRight_again filling

/-! ### Rounds -/

/-- Rounds that find nothing leave a pair in which they find nothing again. -/
def Round.Final (round : Round left right) : Prop :=
  ∀ {pair after : Pair σ τ}, round.step pair = (some (.ok none), after) →
    round.step after = (some (.ok none), after)

theorem unionRound_final : (unionRound left right).Final := by
  intro pair after step
  change pair.unionStep left right = _ at step
  show after.unionStep left right = _
  rw [unionStep] at step
  split at step
  · cases step
  · rename_i filled filling
    split at step
    · rename_i nothing
      cases step
      rw [unionStep, fillBoth_again filling]
      dsimp only
      rw [nothing]
    · rw [emitOnce] at step
      split at step <;> cases step

theorem intersectionRound_final : (intersectionRound left right).Final := by
  intro pair after step
  change pair.intersectionStep left right = _ at step
  show after.intersectionStep left right = _
  rw [intersectionStep] at step
  split at step
  · cases step
  · rename_i filled filling
    -- Whichever branch answers, it answers again, because filling changes nothing any more.
    split at step
    · rename_i ended
      cases step
      rw [intersectionStep, fillUntilEnd_again filling]
      exact if_pos ended
    · rename_i unended
      split at step
      · split at step
        · cases step
        · split at step
          · cases step
          · rw [emitOnce] at step
            split at step <;> cases step
      · rename_i unmatched
        cases step
        rw [intersectionStep, fillUntilEnd_again filling]
        dsimp only
        rw [if_neg unended]
        split
        · rename_i leftItem rightItem
          exact absurd rightItem (unmatched _ _ leftItem)
        · rfl

variable {round : Round left right}

theorem fetch_final (final : round.Final) {after : Pair σ τ}
    (step : pair.fetch round = (.ok none, after)) : after.fetch round = (.ok none, after) := by
  induction pair using fetch.induct round with
  | case1 pair found last rounded =>
      rw [fetch, rounded] at step
      cases step
      rw [fetch, final rounded]
  | case2 pair next rounded inductionHypothesis =>
      rw [fetch, rounded] at step
      exact inductionHypothesis step

/-- A pair that remembers an end only if its rounds find nothing. -/
def Fit (round : Round left right) (pair : Pair σ τ) : Prop :=
  pair.pending = some none →
    ({ pair with pending := none } : Pair σ τ).fetch round = (.ok none, { pair with pending := none })

theorem fit_of_pending_eq_none (nothing : pair.pending = none) : pair.Fit round := by
  intro remembered
  rw [nothing] at remembered
  cases remembered

end Pair

theorem pairReader_steady {round : Pair.Round left right} (final : round.Final) :
    (pairReader round).Steady (Pair.Fit round) where
  ask {pair asked more} fit step := by
    change pair.hasNext round = _ at step
    rw [Pair.hasNext] at step
    split at step
    · rename_i pending kept
      cases step
      refine ⟨fit, ?_, rfl⟩
      show pair.hasNext round = _
      rw [Pair.hasNext, kept]
    · rename_i nothing
      split at step
      · cases step
      · rename_i pending fetched fetching
        cases step
        have forgotten : ({ fetched with pending := none } : Pair σ τ) = fetched := by
          have kept := pair.pending_fetch round
          rw [fetching, nothing] at kept
          cases fetched
          cases kept
          rfl
        refine ⟨?_, rfl, ?_⟩
        · intro remembered
          show Pair.fetch round { fetched with pending := none } =
            (.ok none, { fetched with pending := none })
          cases remembered
          rw [forgotten]
          exact Pair.fetch_final final fetching
        · show Pair.next round { fetched with pending := some pending } = pair.next round
          rw [Pair.next_eq_fetch nothing, fetching, Pair.next]
          dsimp only
          rw [forgotten]
  read {pair after found} fit step := by
    apply Pair.fit_of_pending_eq_none
    change pair.next round = _ at step
    rw [Pair.next] at step
    split at step
    · cases step
      rfl
    · rename_i nothing
      have kept := pair.pending_fetch round
      rw [step, nothing] at kept
      exact kept
  final {pair after} fit step := by
    have again : after.pending = none ∧ after.fetch round = (.ok none, after) := by
      change pair.next round = _ at step
      rw [Pair.next] at step
      split at step
      · rename_i pending kept
        obtain ⟨remembered, rfl⟩ := Prod.mk.inj step
        rw [Except.ok.inj remembered] at kept
        exact ⟨rfl, fit kept⟩
      · rename_i nothing
        have kept := pair.pending_fetch round
        rw [step, nothing] at kept
        exact ⟨kept, Pair.fetch_final final step⟩
    constructor
    · exact (Pair.next_eq_fetch again.1).trans again.2
    · show Pair.cursors left right (after.hasNext round).2 = Pair.cursors left right after
      rw [Pair.hasNext, again.1]
      dsimp only
      rw [again.2]
      rfl

end Combinations

/-! ## Traversals -/

namespace ReaderShape

/-- The states that reading from a fresh state can lead to. -/
def Fit : (shape : ReaderShape) → shape.State → Prop
  | .empty, _ | .script, _ | .entities, _ | .links, _ | .sources, _ | .join, _ => True
  | .set, walk => SetWalk.Fit walk
  | .union left right, pair => Pair.Fit (Pair.unionRound left.reader right.reader) pair
  | .intersection left right, pair =>
      Pair.Fit (Pair.intersectionRound left.reader right.reader) pair

theorem steady (shape : ReaderShape) : shape.reader.Steady shape.Fit := by
  cases shape with
  | empty => exact emptyReader_steady
  | set => exact setReader_steady
  | script => exact scriptReader_steady
  | entities => exact entityReader_steady
  | links => exact linkReader_steady
  | sources => exact sourceReader_steady
  | join => exact joinReader_steady
  | union left right => exact pairReader_steady Pair.unionRound_final
  | intersection left right => exact pairReader_steady Pair.intersectionRound_final

end ReaderShape

end EntityQuery
