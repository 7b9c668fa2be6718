import EntityQuery.Proofs.Reader.Ownership

/-!
# Readers that were disposed

Disposing releases what a reader holds, but not everything that it remembers: a probe keeps the
answer of its cursor, and a combination the identities that it fetched of its children.  This is
about what a reader says afterwards.  A released reader refuses: it reports a violation, or answers
that nothing is left.  The second answer is left to readers that had come to their end; one that was
cut short reports a violation every time.

The laws say which states a reader can be in, which of them lie before its end, and how it refuses
once it was released.  They are stated for reading, since a combination asks its children nothing
and only reads them.  This module proves them for lists, for probes, and for scans of entities.
-/

namespace EntityQuery

/--
What a released reader answers: a violation, or, unless it was cut short, that nothing is left.
-/
inductive Refusal {α : Type} (nothing : α) (cut : Bool) : Except QueryError α → Prop
  | violation {error : QueryError} (violates : error.failure.isInvariantViolation = true) :
      Refusal nothing cut (.error error)
  | nothing (uncut : cut = false) : Refusal nothing cut (.ok nothing)

namespace Refusal

variable {α : Type} {nothing : α} {cut : Bool}

theorem eq_nothing {value : α} (refusal : Refusal nothing cut (.ok value)) :
    value = nothing ∧ cut = false := by
  cases refusal with
  | nothing uncut => exact ⟨rfl, uncut⟩

end Refusal

namespace Reader

variable {σ : Type}

/-- A call that keeps a reader released and touches none of its cursors. -/
structure Rests (reader : Reader σ) (shut : σ → Prop) (before after : σ) : Prop where
  shut : shut after
  cursors : reader.cursors after = reader.cursors before

/--
How a reader is released.  The predicates describe its states while it is held, those of them that
lie before its end, and its states after it was disposed, cut short or not.
-/
structure Releasing (reader : Reader σ) (live unended : σ → Prop) (shut : Bool → σ → Prop) :
    Prop where
  hasNext {state : σ} : live state → live (reader.hasNext state).2
  next {state : σ} : live state → live (reader.next state).2
  last {state : σ} : live state → live (reader.last state).2
  /-- A reading that does not find the end stays before it. -/
  goesOn {state : σ} : live state → (reader.next state).1 ≠ .ok none →
    unended (reader.next state).2
  yields {state : σ} {id : EntityId} : live state → (reader.next state).1 = .ok (some id) →
    unended state
  dispose {state : σ} : live state → shut false (reader.dispose state).2
  cutShort {state : σ} : live state → unended state → shut true (reader.dispose state).2
  refuses {cut : Bool} {state : σ} : shut cut state → Refusal none cut (reader.next state).1
  /-- No reading backwards yields an identity either. -/
  refusesLast {cut : Bool} {state : σ} {id : EntityId} : shut cut state →
    (reader.last state).1 ≠ .ok (some id)
  restsAsked {cut : Bool} {state : σ} : shut cut state →
    reader.Rests (shut cut) state (reader.hasNext state).2
  restsRead {cut : Bool} {state : σ} : shut cut state →
    reader.Rests (shut cut) state (reader.next state).2
  restsBack {cut : Bool} {state : σ} : shut cut state →
    reader.Rests (shut cut) state (reader.last state).2
  restsDisposed {cut : Bool} {state : σ} : shut cut state →
    reader.Rests (shut cut) state (reader.dispose state).2

end Reader

/-! ## Lists -/

/-- Nothing lies before the end of the empty reader. -/
theorem emptyReader_releasing :
    emptyReader.Releasing (fun _ => True) (fun _ => False) fun cut _ => cut = false where
  hasNext _ := trivial
  next _ := trivial
  last _ := trivial
  goesOn _ goesOn := goesOn rfl
  yields _ := nofun
  dispose _ := rfl
  cutShort _ := False.elim
  refuses uncut := .nothing uncut
  refusesLast _ := nofun
  restsAsked uncut := ⟨uncut, rfl⟩
  restsRead uncut := ⟨uncut, rfl⟩
  restsBack uncut := ⟨uncut, rfl⟩
  restsDisposed uncut := ⟨uncut, rfl⟩

/-- A set is released as a whole, so its reader is never at an end. -/
theorem setReader_releasing :
    setReader.Releasing (fun _ => True) (fun _ => True) fun _ walk => walk.held = none where
  hasNext _ := trivial
  next _ := trivial
  last _ := trivial
  goesOn _ _ := trivial
  yields _ _ := trivial
  dispose _ := rfl
  cutShort _ _ := rfl
  refuses {cut walk} released := by
    show Refusal none cut walk.next.1
    rw [SetWalk.next, released]
    exact .violation rfl
  refusesLast {cut walk id} released := by
    show walk.last.1 ≠ .ok (some id)
    rw [SetWalk.last, released]
    intro found
    cases found
  restsAsked {cut walk} released := by
    refine ⟨?_, rfl⟩
    show walk.hasNext.2.held = none
    rw [SetWalk.hasNext, released]
    exact released
  restsRead {cut walk} released := by
    refine ⟨?_, rfl⟩
    show walk.next.2.held = none
    rw [SetWalk.next, released]
  restsBack {cut walk} released := by
    refine ⟨?_, rfl⟩
    show walk.last.2.held = none
    rw [SetWalk.last, released]
    exact released
  restsDisposed _ := ⟨rfl, rfl⟩

theorem SetWalk.hasNext_refuses {cut : Bool} {walk : SetWalk} (released : walk.held = none) :
    Refusal false cut walk.hasNext.1 := by
  rw [SetWalk.hasNext, released]
  exact .violation rfl

/-! ## Probes -/

namespace Probe

variable {probe : Probe} {cut : Bool}

/-- A probe remembers that its cursor is exhausted with the answer that said so. -/
def Sound (probe : Probe) : Prop := ∀ answer ∈ probe.answer, probe.exhausted = !answer

/-- A probe that has released its cursor, cut short or not. -/
structure Shut (cut : Bool) (probe : Probe) : Prop where
  released : probe.held = false
  sound : probe.Sound
  unended : cut = true → probe.exhausted = false

theorem Sound.of_answer_eq_none (forgotten : probe.answer = none) : probe.Sound := by
  intro answer present
  rw [forgotten] at present
  cases present

theorem sound_ofEntries (entries : List Entry) : (Probe.ofEntries entries).Sound :=
  .of_answer_eq_none rfl

theorem Sound.hasNext (sound : probe.Sound) : probe.hasNext.2.Sound := by
  rw [Probe.hasNext]
  split
  · exact sound
  · split
    · exact sound
    · rename_i noAnswer
      split
      · split
        · intro answer present
          rw [show probe.answer = some answer from present] at noAnswer
          cases noAnswer
        · rintro answer ⟨⟩
          rfl
      · exact sound

theorem Sound.advance (sound : probe.Sound) : probe.advance.2.Sound := by
  have asked := sound.hasNext
  rw [Probe.advance]
  split
  · rename_i step
    rwa [step] at asked
  · rename_i step
    rwa [step] at asked
  · dsimp only
    split <;> exact .of_answer_eq_none rfl

theorem sound_stepBack (probe : Probe) : probe.stepBack.2.Sound := by
  rw [Probe.stepBack]
  dsimp only
  split
  · split <;> exact .of_answer_eq_none rfl
  · exact .of_answer_eq_none rfl

theorem exhausted_of_hasNext_error {asked : Probe} {error : QueryError}
    (step : probe.hasNext = (.error error, asked)) : asked.exhausted = false := by
  rw [Probe.hasNext] at step
  split at step
  · cases step
  · rename_i unended
    have unexhausted : probe.exhausted = false := Bool.not_eq_true _ ▸ unended
    split at step
    · cases step
    · split at step
      · split at step
        · cases step
          exact unexhausted
        · cases step
      · cases step
        exact unexhausted

theorem exhausted_of_hasNext_true {asked : Probe} (step : probe.hasNext = (.ok true, asked)) :
    asked.exhausted = false := by
  rw [Probe.hasNext] at step
  split at step
  · cases step
  · rename_i unended
    have unexhausted : probe.exhausted = false := Bool.not_eq_true _ ▸ unended
    split at step
    · cases step
      exact unexhausted
    · split at step
      · split at step
        · cases step
        · cases step
          rfl
      · cases step

/-- Behind an advance that did not find the end, the cursor is not exhausted. -/
theorem exhausted_advance (goesOn : probe.advance.1 ≠ .ok none) :
    probe.advance.2.exhausted = false := by
  rw [Probe.advance] at goesOn ⊢
  split
  · rename_i step
    exact exhausted_of_hasNext_error step
  · rename_i step
    rw [step] at goesOn
    exact absurd rfl goesOn
  · rename_i step
    have unended := exhausted_of_hasNext_true step
    dsimp only
    split <;> exact unended

/-- A cursor that is exhausted is not asked again. -/
theorem advance_of_exhausted (ended : probe.exhausted = true) :
    probe.advance = (.ok none, probe) := by
  rw [Probe.advance, Probe.hasNext, if_pos ended]

theorem Sound.dispose (sound : probe.Sound) (unended : cut = true → probe.exhausted = false) :
    probe.dispose.2.Shut cut := by
  rw [Probe.dispose]
  split
  · exact ⟨rfl, sound, unended⟩
  · rename_i released
    exact ⟨Bool.not_eq_true _ ▸ released, sound, unended⟩

theorem Shut.held_ne (shut : probe.Shut cut) : ¬ probe.held = true := by
  rw [shut.released]
  exact Bool.false_ne_true

/-- How a released probe answers a question and a reading. -/
inductive Denies (cut : Bool) (probe : Probe) :
    Except QueryError Bool × Probe → Except QueryError (Option Record) × Probe → Prop
  | ended (uncut : cut = false) (forgotten : probe.answer ≠ some true) :
      Denies cut probe (.ok false, probe) (.ok none, probe)
  /-- The answer that the cursor gave before it was closed; a reading gives it up. -/
  | kept (known : probe.answer = some true) :
      Denies cut probe (.ok true, probe) (.error .cursorClosed, { probe with answer := none })
  | closed (forgotten : probe.answer ≠ some true) :
      Denies cut probe (.error .cursorClosed, probe) (.error .cursorClosed, probe)

theorem Shut.denies (shut : probe.Shut cut) : Denies cut probe probe.hasNext probe.advance := by
  obtain ⟨cursor, held, answer, exhausted⟩ := probe
  obtain ⟨rfl, sound, unended⟩ := shut
  rcases answer with _ | answer
  · cases exhausted with
    | false => exact .closed nofun
    | true =>
        refine .ended ?_ nofun
        rw [← Bool.not_eq_true]
        intro isCut
        cases unended isCut
  · obtain rfl : exhausted = !answer := sound answer rfl
    cases answer with
    | true => exact .kept rfl
    | false =>
        refine .ended ?_ nofun
        rw [← Bool.not_eq_true]
        intro isCut
        cases unended isCut

theorem Shut.hasNext (shut : probe.Shut cut) : probe.hasNext.2 = probe := by
  have denies := shut.denies
  generalize probe.hasNext = asked, probe.advance = taken at denies
  cases denies <;> rfl

theorem Shut.hasNext_eq_true_iff (shut : probe.Shut cut) :
    probe.hasNext.1 = .ok true ↔ probe.answer = some true := by
  have denies := shut.denies
  generalize probe.hasNext = asked, probe.advance = taken at denies
  cases denies with
  | ended _ forgotten => simp [forgotten]
  | kept known => simp [known]
  | closed forgotten => simp [forgotten]

theorem Shut.hasNext_refuses (shut : probe.Shut cut) (forgotten : probe.answer ≠ some true) :
    Refusal false cut probe.hasNext.1 := by
  have denies := shut.denies
  generalize probe.hasNext = asked, probe.advance = taken at denies
  cases denies with
  | ended uncut _ => exact .nothing uncut
  | kept known => exact absurd known forgotten
  | closed _ => exact .violation rfl

/-- A released probe yields no record, and gives up the answer that it kept. -/
theorem Shut.advance (shut : probe.Shut cut) :
    Refusal none cut probe.advance.1 ∧ probe.advance.2.Shut cut ∧
      probe.advance.2.cursor = probe.cursor ∧ probe.advance.2.answer ≠ some true := by
  have denies := shut.denies
  generalize probe.hasNext = asked, probe.advance = taken at denies
  cases denies with
  | ended uncut forgotten => exact ⟨.nothing uncut, shut, rfl, forgotten⟩
  | kept known => exact ⟨.violation rfl, ⟨shut.released, nofun, shut.unended⟩, rfl, nofun⟩
  | closed forgotten => exact ⟨.violation rfl, shut, rfl, forgotten⟩

theorem Shut.stepBack (shut : probe.Shut cut) :
    probe.stepBack = (.error .cursorClosed, { probe with answer := none }) := by
  rw [Probe.stepBack]
  exact if_neg shut.held_ne

theorem Shut.forget (shut : probe.Shut cut) : ({ probe with answer := none } : Probe).Shut cut :=
  ⟨shut.released, nofun, shut.unended⟩

theorem Shut.dispose (shut : probe.Shut cut) : probe.dispose = (false, probe) := by
  rw [Probe.dispose]
  exact if_neg shut.held_ne

end Probe

/-! ## Entities -/

theorem EntityWalk.probe_next (walk : EntityWalk) : walk.next.2.probe = walk.probe.advance.2 := by
  rw [next]
  split
  all_goals
    rename_i step
    rw [step]

theorem EntityWalk.probe_last (walk : EntityWalk) : walk.last.2.probe = walk.probe.stepBack.2 := by
  rw [last]
  split
  all_goals
    rename_i step
    rw [step]

theorem EntityWalk.rests {cut : Bool} {walk after : EntityWalk} (shut : after.probe.Shut cut)
    (same : after.probe.cursor = walk.probe.cursor) :
    entityReader.Rests (fun walk => walk.probe.Shut cut) walk after :=
  ⟨shut, congrArg (fun cursor : Cursor => [cursor.usage]) same⟩

theorem entityReader_releasing :
    entityReader.Releasing (fun walk => walk.probe.Sound) (fun walk => walk.probe.exhausted = false)
      fun cut walk => walk.probe.Shut cut where
  hasNext sound := sound.hasNext
  next {walk} sound := by
    show walk.next.2.probe.Sound
    rw [walk.probe_next]
    exact sound.advance
  last {walk} _ := by
    show walk.last.2.probe.Sound
    rw [walk.probe_last]
    exact walk.probe.sound_stepBack
  goesOn {walk} _ goesOn := by
    change walk.next.1 ≠ .ok none at goesOn
    show walk.next.2.probe.exhausted = false
    rw [walk.probe_next]
    apply Probe.exhausted_advance
    intro ended
    rw [EntityWalk.next] at goesOn
    rcases step : walk.probe.advance with ⟨error | record, probe⟩
    · rw [step] at ended
      cases ended
    · rw [step] at ended goesOn
      cases ended
      exact goesOn rfl
  yields {walk id} _ found := by
    change walk.next.1 = .ok (some id) at found
    rw [← Bool.not_eq_true]
    intro ended
    rw [EntityWalk.next, Probe.advance_of_exhausted ended] at found
    cases found
  dispose sound := sound.dispose nofun
  cutShort sound unended := sound.dispose fun _ => unended
  refuses {cut walk} shut := by
    obtain ⟨refusal, _⟩ := shut.advance
    show Refusal none cut walk.next.1
    rw [EntityWalk.next]
    rcases step : walk.probe.advance with ⟨error | record, probe⟩
    · rw [step] at refusal
      cases refusal with
      | violation violates => exact .violation violates
    · rw [step] at refusal
      obtain ⟨rfl, uncut⟩ := refusal.eq_nothing
      exact .nothing uncut
  refusesLast {cut walk id} shut := by
    show walk.last.1 ≠ .ok (some id)
    rw [EntityWalk.last, shut.stepBack]
    intro found
    cases found
  restsAsked {cut walk} shut := by
    have same : (entityReader.hasNext walk).2.probe = walk.probe := shut.hasNext
    exact EntityWalk.rests (same.symm ▸ shut) (congrArg Probe.cursor same)
  restsRead {cut walk} shut := by
    obtain ⟨_, shutAfter, same, _⟩ := shut.advance
    have behind : (entityReader.next walk).2.probe = walk.probe.advance.2 := walk.probe_next
    exact EntityWalk.rests (behind.symm ▸ shutAfter) ((congrArg Probe.cursor behind).trans same)
  restsBack {cut walk} shut := by
    have back : (entityReader.last walk).2.probe = { walk.probe with answer := none } := by
      show walk.last.2.probe = _
      rw [EntityWalk.last, shut.stepBack]
    exact EntityWalk.rests (by rw [back]; exact shut.forget) (by rw [back])
  restsDisposed {cut walk} shut := by
    have same : (entityReader.dispose walk).2.probe = walk.probe := congrArg Prod.snd shut.dispose
    exact EntityWalk.rests (same.symm ▸ shut) (congrArg Probe.cursor same)

end EntityQuery
