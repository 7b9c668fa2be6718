import EntityQuery.Proofs.Reader.Moves
import EntityQuery.Proofs.Reader.Release.Pairs
import EntityQuery.Proofs.Reader.Release.Walks

/-!
# Traversals that were disposed

The laws of release hold of the reader of every shape that queries are built with, so they hold of
a traversal behind any moves, and once it was disposed behind any calls.  No such call yields an
identity or moves a cursor.

A question is refused as well, with one exception.  The scan of a type that was told that more is
left remembers the answer, and disposing does not make it forget: it answers the same until a
reading in either direction gives the answer up.  The readers that look ahead give up what they
found when they are disposed, and combinations only read their children, so no other traversal
remembers.
-/

namespace EntityQuery

/-! ## What a scan remembers -/

namespace Probe

variable {probe : Probe}

/-- A probe remembers that more is left where it has just said so. -/
theorem Sound.answer_hasNext (sound : probe.Sound) :
    probe.hasNext.2.answer = some true ↔ probe.hasNext.1 = .ok true := by
  rw [Probe.hasNext]
  split
  · rename_i ended
    constructor
    · intro remembered
      rw [sound true remembered] at ended
      cases ended
    · rintro ⟨⟩
  · split
    · rename_i answer known
      simp [known]
    · rename_i nothing
      split
      · split
        · simp [nothing]
        · simp
      · simp [nothing]

/-- Taking an entry makes a probe forget. -/
theorem Sound.answer_advance (sound : probe.Sound) : probe.advance.2.answer ≠ some true := by
  have remembers := sound.answer_hasNext
  rw [Probe.advance]
  split
  · rename_i step
    rw [step] at remembers
    intro remembered
    cases remembers.1 remembered
  · rename_i step
    rw [step] at remembers
    intro remembered
    cases remembers.1 remembered
  · dsimp only
    split <;> exact (Option.some_ne_none true).symm

theorem answer_stepBack (probe : Probe) : probe.stepBack.2.answer = none := by
  rw [stepBack]
  dsimp only
  split
  · split <;> rfl
  · rfl

end Probe

namespace EntityWalk

variable {walk : EntityWalk} {cut : Bool}

/-- Whether a scan remembers that it was told that more is left. -/
def Remembers (walk : EntityWalk) : Prop := walk.probe.answer = some true

theorem remembers_hasNext (sound : walk.probe.Sound) :
    (entityReader.hasNext walk).2.Remembers ↔ (entityReader.hasNext walk).1 = .ok true :=
  sound.answer_hasNext

theorem forgets_next (sound : walk.probe.Sound) : ¬ (entityReader.next walk).2.Remembers := by
  show walk.next.2.probe.answer ≠ some true
  rw [walk.probe_next]
  exact sound.answer_advance

theorem forgets_last (walk : EntityWalk) : ¬ (entityReader.last walk).2.Remembers := by
  show walk.last.2.probe.answer ≠ some true
  rw [walk.probe_last, Probe.answer_stepBack]
  exact nofun

/-- Disposing is no reason to forget. -/
theorem remembers_dispose (walk : EntityWalk) :
    (entityReader.dispose walk).2.Remembers ↔ walk.Remembers := by
  have same : walk.probe.dispose.2.answer = walk.probe.answer := by
    rw [Probe.dispose]
    split <;> rfl
  show walk.probe.dispose.2.answer = some true ↔ walk.probe.answer = some true
  rw [same]

theorem remembers_hasNext_of_shut (shut : walk.probe.Shut cut) :
    (entityReader.hasNext walk).2.Remembers ↔ walk.Remembers := by
  show walk.probe.hasNext.2.answer = some true ↔ walk.probe.answer = some true
  rw [shut.hasNext]

end EntityWalk

/-! ## Shapes -/

/-- A reader of which no state is described is released as told. -/
theorem Reader.releasing_of_undescribed {σ : Type} (reader : Reader σ) :
    reader.Releasing (fun _ => False) (fun _ => False) fun _ _ => False where
  hasNext := False.elim
  next := False.elim
  last := False.elim
  goesOn := False.elim
  yields := False.elim
  dispose := False.elim
  cutShort := False.elim
  refuses := False.elim
  refusesLast := False.elim
  restsAsked := False.elim
  restsRead := False.elim
  restsBack := False.elim
  restsDisposed := False.elim

namespace ReaderShape

/-- The states before the end of a reader.  Scripts and edges are no part of a query. -/
def Unended : (shape : ReaderShape) → shape.State → Prop
  | .empty, _ | .script, _ | .links, _ => False
  | .set, _ => True
  | .entities, walk => (EntityWalk.probe walk).exhausted = false
  | .sources, walk => (SourceWalk.links walk).probe.exhausted = false
  | .join, walk => JoinWalk.Unended walk
  | .union left right, pair => Pair.Waits .union left.Unended right.Unended pair
  | .intersection left right, pair => Pair.Waits .intersection left.Unended right.Unended pair

/-- The states of a reader that was not disposed. -/
def Live : (shape : ReaderShape) → shape.State → Prop
  | .empty, _ | .set, _ => True
  | .script, _ | .links, _ => False
  | .entities, walk => (EntityWalk.probe walk).Sound
  | .sources, walk => SourceWalk.Live walk
  | .join, walk => JoinWalk.Live walk
  | .union left right, pair =>
      Pair.Live .union left.Live left.Unended right.Live right.Unended pair
  | .intersection left right, pair =>
      Pair.Live .intersection left.Live left.Unended right.Live right.Unended pair

/-- The states of a reader that was disposed, cut short or not. -/
def Shut : (shape : ReaderShape) → Bool → shape.State → Prop
  | .empty, cut, _ => cut = false
  | .set, _, walk => SetWalk.held walk = none
  | .script, _, _ | .links, _, _ => False
  | .entities, cut, walk => (EntityWalk.probe walk).Shut cut
  | .sources, cut, walk => SourceWalk.Shut cut walk
  | .join, cut, walk => JoinWalk.Shut cut walk
  | .union left right, cut, pair => Pair.Shut .union left.Shut right.Shut cut pair
  | .intersection left right, cut, pair => Pair.Shut .intersection left.Shut right.Shut cut pair

theorem releasing (shape : ReaderShape) :
    shape.reader.Releasing shape.Live shape.Unended shape.Shut := by
  induction shape with
  | empty => exact emptyReader_releasing
  | set => exact setReader_releasing
  | script => exact scriptReader.releasing_of_undescribed
  | entities => exact entityReader_releasing
  | links => exact linkReader.releasing_of_undescribed
  | sources => exact sourceReader_refills.releasing sourceReader_looksAhead
  | join => exact joinReader_refills.releasing joinReader_looksAhead
  | union left right leftReleasing rightReleasing =>
      exact Pair.pairReader_releasing Pair.turn_unionStep leftReleasing rightReleasing
  | intersection left right leftReleasing rightReleasing =>
      exact Pair.pairReader_releasing Pair.turn_intersectionStep leftReleasing rightReleasing

/-- Whether a reader remembers that it was told that more is left. -/
def Remembers : (shape : ReaderShape) → shape.State → Prop
  | .entities, walk => EntityWalk.Remembers walk
  | _, _ => False

/-- A released reader that remembers nothing refuses a question. -/
theorem hasNext_refuses {shape : ReaderShape} {cut : Bool} {state : shape.State}
    (shut : shape.Shut cut state) (forgotten : ¬ shape.Remembers state) :
    Refusal false cut (shape.reader.hasNext state).1 := by
  cases shape with
  | empty => exact .nothing shut
  | set => exact SetWalk.hasNext_refuses shut
  | script => exact shut.elim
  | entities => exact Probe.Shut.hasNext_refuses shut forgotten
  | links => exact shut.elim
  | sources => exact sourceReader_refills.hasNext_refuses sourceReader_looksAhead shut
  | join => exact joinReader_refills.hasNext_refuses joinReader_looksAhead shut
  | union left right =>
      exact (Pair.Shut.hasNext Pair.turn_unionStep left.releasing right.releasing shut).1
  | intersection left right =>
      exact (Pair.Shut.hasNext Pair.turn_intersectionStep left.releasing right.releasing shut).1

end ReaderShape

/-! ## Traversals -/

def Move.call : Move → ReaderCall
  | .hasNext => .hasNext
  | .next => .next
  | .last => .last

namespace Traversal

variable {traversal : Traversal} {cut : Bool}

/-- A traversal behind calls, whatever they were answered. -/
def behind (traversal : Traversal) (calls : List ReaderCall) : Traversal :=
  (callAll calls traversal).2

/-- A traversal that is disposed behind moves. -/
def disposedBehind (traversal : Traversal) (moves : List Move) : Traversal :=
  (traversal.behind (moves.map Move.call)).dispose.2

theorem behind_append (traversal : Traversal) (first second : List ReaderCall) :
    traversal.behind (first ++ second) = (traversal.behind first).behind second := by
  induction first generalizing traversal with
  | nil => rfl
  | cons call rest inductionHypothesis => exact inductionHypothesis (traversal.call call).2

theorem shape_behind (traversal : Traversal) (calls : List ReaderCall) :
    (traversal.behind calls).shape = traversal.shape := by
  induction calls generalizing traversal with
  | nil => rfl
  | cons call rest inductionHypothesis =>
      have same : (traversal.call call).2.shape = traversal.shape := by cases call <;> rfl
      exact (inductionHypothesis (traversal.call call).2).trans same

/-- A traversal that was not disposed. -/
def Live (traversal : Traversal) : Prop := traversal.shape.Live traversal.state

/-- A traversal that was disposed, cut short or not. -/
def Shut (cut : Bool) (traversal : Traversal) : Prop := traversal.shape.Shut cut traversal.state

/-- Whether a traversal remembers that it was told that more is left. -/
def Remembers (traversal : Traversal) : Prop := traversal.shape.Remembers traversal.state

/-! ### Moves -/

theorem Live.move (live : traversal.Live) (move : Move) :
    (traversal.call move.call).2.Live := by
  have releasing := traversal.shape.releasing
  cases move with
  | hasNext => exact releasing.hasNext live
  | next => exact releasing.next live
  | last => exact releasing.last live

theorem Live.behind (live : traversal.Live) (moves : List Move) :
    (traversal.behind (moves.map Move.call)).Live := by
  induction moves generalizing traversal with
  | nil => exact live
  | cons move rest inductionHypothesis => exact inductionHypothesis (live.move move)

/-- A scan of a type whose last move was a question, and the answer was that more is left. -/
def ToldMore (traversal : Traversal) (moves : List Move) : Prop :=
  traversal.shape = .entities ∧ ∃ earlier, moves = earlier ++ [.hasNext] ∧
    (traversal.behind (earlier.map Move.call)).hasNext.1 = .ok true

theorem Live.remembers_move (live : traversal.Live) (move : Move) :
    (traversal.call move.call).2.Remembers ↔
      traversal.shape = .entities ∧ move = .hasNext ∧ traversal.hasNext.1 = .ok true := by
  obtain ⟨shape, state⟩ := traversal
  cases shape with
  | entities =>
      cases move with
      | hasNext =>
          refine (EntityWalk.remembers_hasNext live).trans ?_
          exact ⟨fun told => ⟨rfl, rfl, told⟩, fun told => told.2.2⟩
      | next =>
          exact ⟨fun remembered => absurd remembered (EntityWalk.forgets_next live),
            fun told => nomatch told.2.1⟩
      | last =>
          exact ⟨fun remembered => absurd remembered (EntityWalk.forgets_last state),
            fun told => nomatch told.2.1⟩
  | empty | set | script | links | sources | join | union | intersection =>
      refine ⟨fun remembered => ?_, fun told => nomatch told.1⟩
      cases move <;> exact remembered.elim

theorem remembers_behind (live : traversal.Live) (fresh : ¬ traversal.Remembers)
    (moves : List Move) :
    (traversal.behind (moves.map Move.call)).Remembers ↔ traversal.ToldMore moves := by
  rcases moves.eq_nil_or_concat with rfl | ⟨earlier, move, rfl⟩
  · exact ⟨fun remembered => absurd remembered fresh, by simp [ToldMore]⟩
  · rw [List.concat_eq_append, List.map_append, behind_append]
    refine ((live.behind earlier).remembers_move move).trans ?_
    rw [shape_behind]
    constructor
    · rintro ⟨scan, rfl, told⟩
      exact ⟨scan, earlier, rfl, told⟩
    · rintro ⟨scan, others, same, told⟩
      obtain ⟨rfl, last⟩ := List.append_inj' same rfl
      exact ⟨scan, List.singleton_inj.1 last, told⟩

theorem remembers_dispose : traversal.dispose.2.Remembers ↔ traversal.Remembers := by
  obtain ⟨shape, state⟩ := traversal
  cases shape with
  | entities => exact EntityWalk.remembers_dispose state
  | empty | set | script | links | sources | join | union | intersection => exact Iff.rfl

/-! ### Calls behind a disposal -/

/-- A call to a released traversal yields no identity, and touches no cursor. -/
theorem Shut.call (shut : traversal.Shut cut) (call : ReaderCall) :
    (traversal.call call).2.Shut cut ∧ (traversal.call call).2.cursors = traversal.cursors ∧
      ∀ id, (traversal.call call).1 ≠ .ok (.identity (some id)) := by
  have releasing := traversal.shape.releasing
  cases call with
  | hasNext =>
      have rests := releasing.restsAsked shut
      refine ⟨rests.shut, rests.cursors, ?_⟩
      intro id
      show (traversal.shape.reader.hasNext traversal.state).1.map ReaderReply.flag ≠ _
      cases (traversal.shape.reader.hasNext traversal.state).1 <;> exact nofun
  | next =>
      have rests := releasing.restsRead shut
      have refusal := releasing.refuses shut
      refine ⟨rests.shut, rests.cursors, ?_⟩
      intro id
      show (traversal.shape.reader.next traversal.state).1.map ReaderReply.identity ≠ _
      generalize (traversal.shape.reader.next traversal.state).1 = answer at refusal
      cases refusal <;> exact nofun
  | last =>
      have rests := releasing.restsBack shut
      refine ⟨rests.shut, rests.cursors, ?_⟩
      intro id
      have refusal : (traversal.shape.reader.last traversal.state).1 ≠ .ok (some id) :=
        releasing.refusesLast shut
      show (traversal.shape.reader.last traversal.state).1.map ReaderReply.identity ≠ _
      generalize (traversal.shape.reader.last traversal.state).1 = answer at refusal
      rcases answer with error | found
      · exact nofun
      · rintro ⟨⟩
        exact refusal rfl
  | dispose =>
      have rests := releasing.restsDisposed shut
      exact ⟨rests.shut, rests.cursors, nofun⟩
  | target =>
      refine ⟨shut, rfl, ?_⟩
      obtain ⟨shape, state⟩ := traversal
      cases shape with
      | links => exact shut.elim
      | empty | set | script | entities | sources | join | union | intersection => exact nofun

/-- Calls to a released traversal yield no identity, and touch no cursor. -/
theorem Shut.callAll (shut : traversal.Shut cut) (calls : List ReaderCall) :
    (traversal.behind calls).Shut cut ∧ (traversal.behind calls).cursors = traversal.cursors ∧
      ∀ id, .ok (.identity (some id)) ∉ (Traversal.callAll calls traversal).1 := by
  induction calls generalizing traversal with
  | nil => exact ⟨shut, rfl, nofun⟩
  | cons call rest inductionHypothesis =>
      obtain ⟨shutAfter, same, silent⟩ := shut.call call
      obtain ⟨shutBehind, sameBehind, silentBehind⟩ := inductionHypothesis shutAfter
      refine ⟨shutBehind, sameBehind.trans same, ?_⟩
      intro id member
      rcases List.mem_cons.1 member with reply | member
      · exact silent id reply.symm
      · exact silentBehind id member

/-- A released scan forgets when it is read in either direction, and only then. -/
theorem Shut.remembers_call (shut : traversal.Shut cut) (call : ReaderCall) :
    (traversal.call call).2.Remembers ↔ traversal.Remembers ∧ call ≠ .next ∧ call ≠ .last := by
  obtain ⟨shape, state⟩ := traversal
  cases shape with
  | entities =>
      have sound : (EntityWalk.probe state).Sound := Probe.Shut.sound shut
      cases call with
      | hasNext =>
          refine (EntityWalk.remembers_hasNext_of_shut shut).trans ?_
          exact ⟨fun remembered => ⟨remembered, nofun, nofun⟩, fun remembered => remembered.1⟩
      | next =>
          exact ⟨fun remembered => absurd remembered (EntityWalk.forgets_next sound),
            fun remembered => absurd rfl remembered.2.1⟩
      | last =>
          exact ⟨fun remembered => absurd remembered (EntityWalk.forgets_last state),
            fun remembered => absurd rfl remembered.2.2⟩
      | dispose =>
          refine (EntityWalk.remembers_dispose state).trans ?_
          exact ⟨fun remembered => ⟨remembered, nofun, nofun⟩, fun remembered => remembered.1⟩
      | target =>
          exact ⟨fun remembered => ⟨remembered, nofun, nofun⟩, fun remembered => remembered.1⟩
  | empty | set | script | links | sources | join | union | intersection =>
      refine ⟨fun remembered => ?_, fun remembered => remembered.1.elim⟩
      cases call <;> exact remembered.elim

theorem Shut.remembers_behind (shut : traversal.Shut cut) (calls : List ReaderCall) :
    (traversal.behind calls).Remembers ↔
      traversal.Remembers ∧ .next ∉ calls ∧ .last ∉ calls := by
  induction calls generalizing traversal with
  | nil => simp [Traversal.behind, Traversal.callAll]
  | cons call rest inductionHypothesis =>
      have remembers := inductionHypothesis (shut.call call).1
      refine remembers.trans ?_
      rw [shut.remembers_call call, List.mem_cons, List.mem_cons, not_or, not_or, ne_comm,
        @ne_comm _ call .last]
      constructor
      · rintro ⟨⟨remembered, notNext, notLast⟩, noNext, noLast⟩
        exact ⟨remembered, ⟨notNext, noNext⟩, notLast, noLast⟩
      · rintro ⟨remembered, ⟨notNext, noNext⟩, notLast, noLast⟩
        exact ⟨⟨remembered, notNext, notLast⟩, noNext, noLast⟩

theorem Shut.hasNext_refuses (shut : traversal.Shut cut) (forgotten : ¬ traversal.Remembers) :
    Refusal false cut traversal.hasNext.1 :=
  ReaderShape.hasNext_refuses shut forgotten

/-- A released traversal answers that more is left where it remembers that, and only there. -/
theorem Shut.hasNext_eq_true_iff (shut : traversal.Shut cut) :
    traversal.hasNext.1 = .ok true ↔ traversal.Remembers := by
  constructor
  · intro claims
    refine Classical.byContradiction fun forgotten => ?_
    have refusal := shut.hasNext_refuses forgotten
    rw [claims] at refusal
    cases refusal.eq_nothing.1
  · intro remembered
    obtain ⟨shape, state⟩ := traversal
    cases shape with
    | entities => exact (Probe.Shut.hasNext_eq_true_iff shut).2 remembered
    | empty | set | script | links | sources | join | union | intersection =>
        exact remembered.elim

/-! ### Traversals of queries -/

/-- A traversal that was just opened. -/
structure Opened (traversal : Traversal) : Prop where
  live : traversal.Live
  forgotten : ¬ traversal.Remembers

theorem opened_empty : empty.Opened := ⟨trivial, nofun⟩

theorem opened_ofSet (set : IdSet) : (ofSet set).Opened := ⟨trivial, nofun⟩

theorem opened_ofEntities (typeId : TypeId) (entries : List Entry) :
    (ofEntities typeId entries).Opened :=
  ⟨Probe.sound_ofEntries entries, nofun⟩

theorem opened_ofSources (typeId : TypeId) (entries : List Entry) :
    (ofSources typeId entries).Opened :=
  ⟨⟨Probe.sound_ofEntries entries, nofun⟩, nofun⟩

theorem opened_ofJoin (typeId : TypeId) (entries : List Entry) (targets : IdSet) :
    (ofJoin typeId entries targets).Opened :=
  ⟨⟨Probe.sound_ofEntries entries, nofun⟩, nofun⟩

theorem Opened.union {left right : Traversal} (leftOpened : left.Opened)
    (rightOpened : right.Opened) : (left.union right).Opened :=
  ⟨Pair.live_ofStates leftOpened.live rightOpened.live, nofun⟩

theorem Opened.intersection {left right : Traversal} (leftOpened : left.Opened)
    (rightOpened : right.Opened) : (left.intersection right).Opened :=
  ⟨Pair.live_ofStates leftOpened.live rightOpened.live, nofun⟩

/-- A traversal is released when it is disposed, behind whatever moves. -/
theorem Live.dispose (live : traversal.Live) : traversal.dispose.2.Shut false :=
  traversal.shape.releasing.dispose live

/-- A traversal that had an identity left is cut short when it is disposed. -/
theorem Live.dispose_of_yields (live : traversal.Live) {id : EntityId}
    (yields : traversal.next.1 = .ok (some id)) : traversal.dispose.2.Shut true := by
  have releasing := traversal.shape.releasing
  exact releasing.cutShort live (releasing.yields live yields)

/--
What a traversal keeps to itself once it was disposed, behind whatever moves: no call to it yields
an identity, and none touches a cursor.
-/
structure Withholds (traversal : Traversal) : Prop where
  identities : ∀ moves calls id,
    .ok (.identity (some id)) ∉ (callAll calls (traversal.disposedBehind moves)).1
  cursors : ∀ moves calls, ((traversal.disposedBehind moves).behind calls).cursors =
    (traversal.disposedBehind moves).cursors

theorem Opened.withholds (opened : traversal.Opened) : traversal.Withholds where
  identities moves calls := ((opened.live.behind moves).dispose.callAll calls).2.2
  cursors moves calls := ((opened.live.behind moves).dispose.callAll calls).2.1

/-- A disposed scan still claims that more is left: it was told so last, and was not read since. -/
def ClaimsMore (traversal : Traversal) (moves : List Move) (calls : List ReaderCall) : Prop :=
  traversal.ToldMore moves ∧ .next ∉ calls ∧ .last ∉ calls

/--
What a traversal answers to a question once it was disposed, behind whatever moves and calls: never
that more is left, and a violation if an identity was left.  The one exception is the scan of a type
that claims more.
-/
structure Disclaims (traversal : Traversal) : Prop where
  claims : ∀ moves calls, ((traversal.disposedBehind moves).behind calls).hasNext.1 = .ok true ↔
    traversal.ClaimsMore moves calls
  violates : ∀ moves calls id,
    (traversal.behind (moves.map Move.call)).next.1 = .ok (some id) →
      ¬ traversal.ClaimsMore moves calls →
        ∃ error, ((traversal.disposedBehind moves).behind calls).hasNext.1 = .error error ∧
          error.failure.isInvariantViolation = true

theorem Opened.remembers_behind (opened : traversal.Opened) (moves : List Move)
    (calls : List ReaderCall) :
    ((traversal.disposedBehind moves).behind calls).Remembers ↔
      traversal.ClaimsMore moves calls := by
  have live := opened.live.behind moves
  rw [disposedBehind, live.dispose.remembers_behind calls, remembers_dispose,
    Traversal.remembers_behind opened.live opened.forgotten moves]
  exact Iff.rfl

theorem Opened.disclaims (opened : traversal.Opened) : traversal.Disclaims where
  claims moves calls := by
    have shut := ((opened.live.behind moves).dispose.callAll calls).1
    exact shut.hasNext_eq_true_iff.trans (opened.remembers_behind moves calls)
  violates moves calls id yields claimsNothing := by
    have shut := (((opened.live.behind moves).dispose_of_yields yields).callAll calls).1
    have refusal := shut.hasNext_refuses fun remembered =>
      claimsNothing ((opened.remembers_behind moves calls).1 remembered)
    change Refusal false true ((traversal.disposedBehind moves).behind calls).hasNext.1 at refusal
    generalize ((traversal.disposedBehind moves).behind calls).hasNext.1 = answer at refusal
    cases refusal with
    | violation violates => exact ⟨_, rfl, violates⟩
    | nothing uncut => cases uncut

end Traversal

end EntityQuery
