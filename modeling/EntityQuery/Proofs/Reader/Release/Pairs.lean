import EntityQuery.Proofs.Reader.Release.Rounds

/-!
# Combinations that were disposed

Between two calls a combination may keep the answer of its last round.  An identity that is kept
while the combination is held lies before its end; disposing forgets it, so that a combination that
was released keeps at most that it has come to its end.  With what a round leaves, this gives the
laws of a combination from those of its children.
-/

namespace EntityQuery

namespace Pair

variable {σ τ : Type} {left : Reader σ} {right : Reader τ} {combination : Combination}
  {pair : Pair σ τ}

variable {liveLeft unendedLeft : σ → Prop} {shutLeft : Bool → σ → Prop}
  {liveRight unendedRight : τ → Prop} {shutRight : Bool → τ → Prop} {cut : Bool}

/-- A pair that is held, between two calls; an identity that is kept lies before the end. -/
structure Live (combination : Combination) (liveLeft unendedLeft : σ → Prop)
    (liveRight unendedRight : τ → Prop) (pair : Pair σ τ) : Prop where
  held : pair.Held combination liveLeft unendedLeft liveRight unendedRight
  kept {id : EntityId} : pair.pending = some (some id) →
    pair.Waits combination unendedLeft unendedRight

/-- A pair that was released, between two calls: it keeps nothing but perhaps that it has ended. -/
structure Shut (combination : Combination) (shutLeft : Bool → σ → Prop)
    (shutRight : Bool → τ → Prop) (cut : Bool) (pair : Pair σ τ) : Prop where
  released : pair.Released combination shutLeft shutRight cut
  kept {pending : Option EntityId} : pair.pending = some pending → pending = none ∧ cut = false

theorem Held.live (held : pair.Held combination liveLeft unendedLeft liveRight unendedRight)
    (nothing : pair.pending = none) :
    pair.Live combination liveLeft unendedLeft liveRight unendedRight := by
  refine ⟨held, fun kept => ?_⟩
  rw [nothing] at kept
  cases kept

theorem Released.shut (released : pair.Released combination shutLeft shutRight cut)
    (nothing : pair.pending = none) : pair.Shut combination shutLeft shutRight cut := by
  refine ⟨released, fun kept => ?_⟩
  rw [nothing] at kept
  cases kept

theorem live_ofStates {first : σ} {second : τ} (firstLive : liveLeft first)
    (secondLive : liveRight second) :
    (ofStates first second).Live combination liveLeft unendedLeft liveRight unendedRight := by
  refine ⟨⟨⟨firstLive, nofun⟩, ⟨secondLive, nofun⟩, ?_⟩, nofun⟩
  cases combination with
  | union =>
      rintro (shown | shown)
      · cases shown
      · cases shown
  | intersection =>
      rintro ⟨shown, _⟩
      cases shown

variable {round : Round left right}
  (turning : ∀ pair, Turn combination left right pair (round.step pair))
  (leftReleasing : left.Releasing liveLeft unendedLeft shutLeft)
  (rightReleasing : right.Releasing liveRight unendedRight shutRight)
include turning leftReleasing rightReleasing

theorem Live.hasNext
    (isLive : pair.Live combination liveLeft unendedLeft liveRight unendedRight) :
    (pair.hasNext round).2.Live combination liveLeft unendedLeft liveRight unendedRight := by
  have turned := isLive.held.fetch leftReleasing rightReleasing turning
  have pending := pair.pending_fetch round
  rw [Pair.hasNext]
  split
  · exact isLive
  · rename_i nothing
    rw [nothing] at pending
    split
    · rename_i step
      rw [step] at turned pending
      exact turned.held.live pending
    · rename_i found fetched step
      rw [step] at turned
      refine ⟨turned.held.withPending (some found), ?_⟩
      rintro id ⟨⟩
      exact turned.goesOn fun ended => by cases ended

theorem Live.next
    (isLive : pair.Live combination liveLeft unendedLeft liveRight unendedRight) :
    (pair.next round).2.Live combination liveLeft unendedLeft liveRight unendedRight ∧
      ((pair.next round).1 ≠ .ok none →
        (pair.next round).2.Waits combination unendedLeft unendedRight) ∧
      ∀ id, (pair.next round).1 = .ok (some id) →
        pair.Waits combination unendedLeft unendedRight := by
  have turned := isLive.held.fetch leftReleasing rightReleasing turning
  have pending := pair.pending_fetch round
  rw [Pair.next]
  split
  · rename_i found kept
    refine ⟨(isLive.held.withPending none).live rfl, ?_, ?_⟩
    · intro goesOn
      rcases found with _ | id
      · exact absurd rfl goesOn
      · exact isLive.kept kept
    · rintro id ⟨⟩
      exact isLive.kept kept
  · rename_i nothing
    rw [nothing] at pending
    refine ⟨turned.held.live pending, ?_, ?_⟩
    · exact fun goesOn => turned.goesOn fun ended => goesOn (Option.some.inj ended)
    · intro id found
      refine turned.took ?_ ?_ <;> simp [found]

theorem Released.fetch (released : pair.Released combination shutLeft shutRight cut) :
    Refusal none cut (pair.fetch round).1 ∧
      (pair.fetch round).2.Released combination shutLeft shutRight cut ∧
        (pairReader round).cursors (pair.fetch round).2 = (pairReader round).cursors pair := by
  rcases step : round.step pair with ⟨answer, after⟩
  obtain ⟨⟨found, rfl, refusal⟩, releasedAfter, leftSame, rightSame⟩ :=
    (step ▸ turning pair).refuses leftReleasing rightReleasing released
  rw [fetch_of_answer step]
  refine ⟨refusal, releasedAfter, ?_⟩
  show left.cursors after.left.state ++ right.cursors after.right.state = _
  rw [leftSame, rightSame]
  rfl

theorem Shut.hasNext (isShut : pair.Shut combination shutLeft shutRight cut) :
    Refusal false cut (pair.hasNext round).1 ∧
      (pairReader round).Rests (Shut combination shutLeft shutRight cut) pair
        (pair.hasNext round).2 := by
  obtain ⟨refusal, releasedAfter, same⟩ :=
    isShut.released.fetch turning leftReleasing rightReleasing
  have pending := pair.pending_fetch round
  rw [Pair.hasNext]
  split
  · rename_i found kept
    obtain ⟨rfl, uncut⟩ := isShut.kept kept
    exact ⟨.nothing uncut, isShut, rfl⟩
  · rename_i nothing
    rw [nothing] at pending
    rcases step : pair.fetch round with ⟨error | found, fetched⟩
    · rw [step] at refusal releasedAfter same pending
      cases refusal with
      | violation violates => exact ⟨.violation violates, releasedAfter.shut pending, same⟩
    · rw [step] at refusal releasedAfter same
      obtain ⟨rfl, uncut⟩ := refusal.eq_nothing
      refine ⟨.nothing uncut, ⟨releasedAfter.withPending (some none), ?_⟩, same⟩
      rintro _ ⟨⟩
      exact ⟨rfl, uncut⟩

theorem Shut.next (isShut : pair.Shut combination shutLeft shutRight cut) :
    Refusal none cut (pair.next round).1 ∧
      (pairReader round).Rests (Shut combination shutLeft shutRight cut) pair
        (pair.next round).2 := by
  obtain ⟨refusal, releasedAfter, same⟩ :=
    isShut.released.fetch turning leftReleasing rightReleasing
  have pending := pair.pending_fetch round
  rw [Pair.next]
  split
  · rename_i found kept
    obtain ⟨rfl, uncut⟩ := isShut.kept kept
    exact ⟨.nothing uncut, (isShut.released.withPending none).shut rfl, rfl⟩
  · rename_i nothing
    rw [nothing] at pending
    exact ⟨refusal, releasedAfter.shut pending, same⟩

omit turning leftReleasing rightReleasing in
/-- Disposing children leaves which of them has to be read. -/
theorem Waits.dispose {goodLeft restLeft : σ → Prop} {goodRight restRight : τ → Prop}
    (waits : pair.Waits combination goodLeft goodRight)
    (onLeft : goodLeft pair.left.state → restLeft (left.dispose pair.left.state).2)
    (onRight : goodRight pair.right.state → restRight (right.dispose pair.right.state).2) :
    (pair.dispose left right).2.Waits combination restLeft restRight := by
  rcases waits with ⟨item, undone, good⟩ | ⟨⟨item, undone, good⟩, first⟩
  · exact .inl ⟨item, undone, onLeft good⟩
  · exact .inr ⟨⟨item, undone, onRight good⟩, first⟩

omit turning in
theorem Live.dispose
    (isLive : pair.Live combination liveLeft unendedLeft liveRight unendedRight)
    (unended : cut = true → pair.Waits combination unendedLeft unendedRight) :
    (pair.dispose left right).2.Shut combination shutLeft shutRight cut := by
  obtain ⟨⟨leftLive, rightLive, settled⟩, _⟩ := isLive
  have disposed (waits : pair.Waits combination unendedLeft unendedRight) :
      (pair.dispose left right).2.Waits combination (shutLeft true) (shutRight true) :=
    waits.dispose (leftReleasing.cutShort leftLive.state) (rightReleasing.cutShort rightLive.state)
  refine ⟨⟨leftReleasing.dispose leftLive.state, rightReleasing.dispose rightLive.state, ?_,
    fun isCut => disposed (unended isCut)⟩, nofun⟩
  intro heads
  exact disposed (settled (heads.congr rfl rfl))

omit turning in
theorem Shut.dispose (isShut : pair.Shut combination shutLeft shutRight cut) :
    (pairReader round).Rests (Shut combination shutLeft shutRight cut) pair
      (pair.dispose left right).2 := by
  obtain ⟨⟨leftShut, rightShut, settled, waits⟩, _⟩ := isShut
  have leftRests := leftReleasing.restsDisposed leftShut
  have rightRests := rightReleasing.restsDisposed rightShut
  have disposed (waits : pair.Waits combination (shutLeft true) (shutRight true)) :
      (pair.dispose left right).2.Waits combination (shutLeft true) (shutRight true) :=
    waits.dispose (fun shut => (leftReleasing.restsDisposed shut).shut)
      (fun shut => (rightReleasing.restsDisposed shut).shut)
  refine ⟨⟨⟨leftRests.shut, rightRests.shut, ?_, fun isCut => disposed (waits isCut)⟩, nofun⟩, ?_⟩
  · intro heads
    exact disposed (settled (heads.congr rfl rfl))
  · show left.cursors (left.dispose pair.left.state).2 ++
      right.cursors (right.dispose pair.right.state).2 = _
    rw [leftRests.cursors, rightRests.cursors]
    rfl

/-- A combination is released as its children are. -/
theorem pairReader_releasing :
    (pairReader round).Releasing
      (Live combination liveLeft unendedLeft liveRight unendedRight)
      (Waits combination unendedLeft unendedRight) (Shut combination shutLeft shutRight) where
  hasNext isLive := isLive.hasNext turning leftReleasing rightReleasing
  next isLive := (isLive.next turning leftReleasing rightReleasing).1
  last isLive := isLive
  goesOn isLive := (isLive.next turning leftReleasing rightReleasing).2.1
  yields isLive := (isLive.next turning leftReleasing rightReleasing).2.2 _
  dispose isLive := isLive.dispose leftReleasing rightReleasing nofun
  cutShort isLive unended := isLive.dispose leftReleasing rightReleasing fun _ => unended
  refuses isShut := (isShut.next turning leftReleasing rightReleasing).1
  refusesLast _ := nofun
  restsAsked isShut := (isShut.hasNext turning leftReleasing rightReleasing).2
  restsRead isShut := (isShut.next turning leftReleasing rightReleasing).2
  restsBack isShut := ⟨isShut, rfl⟩
  restsDisposed isShut := isShut.dispose leftReleasing rightReleasing

end Pair

end EntityQuery
