import EntityQuery.Proofs.Reader.Release.Probes

/-!
# Walks of an index that were disposed

A walk that looks ahead is released with its probe, and what it had found by then is dropped.  So
the laws of such a walk are those of filling its look-ahead, which alone reads the index; reading
and asking follow.  What it finds lies before the end of the index, and a search that fails has not
come to the end either, so a walk that goes on is cut short when it is disposed.
-/

namespace EntityQuery

/-! ## Walks that look ahead -/

/--
How a reader with a look-ahead is released.  Reading is told by filling the look-ahead, which alone
touches the index, and by taking what was found.
-/
structure Reader.Refills {σ : Type} (reader : Reader σ) (fill : σ → Except QueryError Unit × σ)
    (ahead : σ → Option EntityId) (take : σ → σ) (live unended : σ → Prop)
    (shut : Bool → σ → Prop) : Prop where
  filled {state : σ} : live state → live (fill state).2
  failed {state : σ} {error : QueryError} : live state → (fill state).1 = .error error →
    unended (fill state).2
  found {state : σ} {id : EntityId} : live state → ahead (fill state).2 = some id → unended state
  taken {state : σ} : live state → live (take state)
  shown {state : σ} {id : EntityId} : live state → ahead state = some id → unended (take state)
  last {state : σ} : live state → live (reader.last state).2
  dispose {cut : Bool} {state : σ} : live state → (cut = true → unended state) →
    shut cut (reader.dispose state).2
  refuses {cut : Bool} {state : σ} : shut cut state → Refusal () cut (fill state).1
  empty {cut : Bool} {state : σ} : shut cut state → ahead state = none
  refusesLast {cut : Bool} {state : σ} {id : EntityId} : shut cut state →
    (reader.last state).1 ≠ .ok (some id)
  restsFilled {cut : Bool} {state : σ} : shut cut state →
    reader.Rests (shut cut) state (fill state).2
  restsTaken {cut : Bool} {state : σ} : shut cut state → reader.Rests (shut cut) state (take state)
  restsBack {cut : Bool} {state : σ} : shut cut state →
    reader.Rests (shut cut) state (reader.last state).2
  restsDisposed {cut : Bool} {state : σ} : shut cut state →
    reader.Rests (shut cut) state (reader.dispose state).2

namespace Reader.Refills

variable {σ : Type} {reader : Reader σ} {fill : σ → Except QueryError Unit × σ}
  {ahead : σ → Option EntityId} {take : σ → σ} {live unended : σ → Prop} {shut : Bool → σ → Prop}
  (refills : reader.Refills fill ahead take live unended shut)
  (looks : reader.LooksAhead fill ahead take)
include refills looks

theorem hasNext_refuses {cut : Bool} {state : σ} (released : shut cut state) :
    Refusal false cut (reader.hasNext state).1 := by
  have refusal := refills.refuses released
  have rests := refills.restsFilled released
  rcases step : fill state with ⟨error | done, filled⟩
  · rw [step] at refusal
    rw [(looks.failed step).1]
    cases refusal with
    | violation violates => exact .violation violates
  · rw [step] at refusal rests
    rw [(looks.filled step).1, refills.empty rests.shut]
    exact .nothing refusal.eq_nothing.2

theorem next_refuses {cut : Bool} {state : σ} (released : shut cut state) :
    Refusal none cut (reader.next state).1 ∧
      reader.Rests (shut cut) state (reader.next state).2 := by
  have refusal := refills.refuses released
  have rests := refills.restsFilled released
  rcases step : fill state with ⟨error | done, filled⟩
  · rw [step] at refusal rests
    rw [(looks.failed step).2]
    cases refusal with
    | violation violates => exact ⟨.violation violates, rests⟩
  · rw [step] at refusal rests
    have restsTaken := refills.restsTaken rests.shut
    rw [(looks.filled step).2, refills.empty rests.shut]
    exact ⟨.nothing refusal.eq_nothing.2, restsTaken.shut, restsTaken.cursors.trans rests.cursors⟩

theorem releasing : reader.Releasing live unended shut where
  hasNext isLive := looks.holds_hasNext live (refills.filled isLive)
  next isLive := looks.holds_next live (refills.filled isLive) refills.taken
  last := refills.last
  goesOn {state} isLive goesOn := by
    have filled := refills.filled isLive
    have failed {error : QueryError} : (fill state).1 = .error error → unended (fill state).2 :=
      refills.failed isLive
    rcases step : fill state with ⟨error | done, after⟩
    · rw [step] at failed
      rw [(looks.failed step).2]
      exact failed rfl
    · rw [step] at filled
      rw [(looks.filled step).2] at goesOn ⊢
      rcases found : ahead after with _ | id
      · rw [found] at goesOn
        exact absurd rfl goesOn
      · exact refills.shown filled found
  yields {state id} isLive found := by
    have unended : ahead (fill state).2 = some id → unended state := refills.found isLive
    rcases step : fill state with ⟨error | done, after⟩
    · rw [(looks.failed step).2] at found
      cases found
    · rw [(looks.filled step).2] at found
      rw [step] at unended
      exact unended (Except.ok.inj found)
  dispose isLive := refills.dispose isLive nofun
  cutShort isLive isUnended := refills.dispose isLive fun _ => isUnended
  refuses released := (refills.next_refuses looks released).1
  refusesLast := refills.refusesLast
  restsAsked released := looks.holds_hasNext _ (refills.restsFilled released)
  restsRead released := (refills.next_refuses looks released).2
  restsBack := refills.restsBack
  restsDisposed := refills.restsDisposed

end Reader.Refills

/-! ## Edges -/

namespace LinkWalk

variable {walk after : LinkWalk} {cut : Bool}

theorem probe_nextEdge (walk : LinkWalk) : walk.nextEdge.2.probe = walk.probe.advance.2 := by
  rw [nextEdge]
  split
  · rename_i step
    rw [step]
  · rename_i step
    rw [step]
  · rename_i step
    rw [probe_takeEdge, step]

theorem probe_lastEdge (walk : LinkWalk) : walk.lastEdge.2.probe = walk.probe.stepBack.2 := by
  rw [lastEdge]
  split
  · rename_i step
    rw [step]
  · rename_i step
    rw [step]
  · rename_i step
    rw [probe_takeEdge, step]

theorem nextEdge_of_advance_none (ended : walk.probe.advance.1 = .ok none) :
    walk.nextEdge.1 = .ok none := by
  rcases step : walk.probe.advance with ⟨record, probe⟩
  rw [step] at ended
  subst ended
  rw [nextEdge, step]

theorem nextEdge_of_shut (shut : walk.probe.Shut cut) :
    Refusal none cut walk.nextEdge.1 ∧ walk.nextEdge.2.probe.Shut cut ∧
      walk.nextEdge.2.probe.cursor = walk.probe.cursor := by
  obtain ⟨refusal, shutAfter, same, _⟩ := shut.advance
  rw [walk.probe_nextEdge]
  refine ⟨?_, shutAfter, same⟩
  rw [nextEdge]
  rcases step : walk.probe.advance with ⟨error | record, probe⟩
  · rw [step] at refusal
    cases refusal with
    | violation violates => exact .violation violates
  · rw [step] at refusal
    obtain ⟨rfl, uncut⟩ := refusal.eq_nothing
    exact .nothing uncut

theorem lastEdge_of_shut (shut : walk.probe.Shut cut) :
    walk.lastEdge =
      (.error .cursorClosed, { walk with probe := { walk.probe with answer := none } }) := by
  rw [lastEdge, shut.stepBack]

theorem exhausted_nextEdge (goesOn : walk.nextEdge.1 ≠ .ok none) :
    walk.nextEdge.2.probe.exhausted = false := by
  rw [walk.probe_nextEdge]
  exact Probe.exhausted_advance fun ended => goesOn (nextEdge_of_advance_none ended)

theorem nextEdge_of_exhausted (ended : walk.probe.exhausted = true) :
    walk.nextEdge.1 = .ok none := by
  apply nextEdge_of_advance_none
  rw [Probe.advance_of_exhausted ended]

/-- What a search of an index leaves: it reports, finds a source, or comes to the end. -/
structure Sought (before : Probe) (result : Except QueryError Unit) (after : Probe)
    (found : Option EntityId) : Prop where
  sound : after.Sound
  failed {error : QueryError} : result = .error error → after.exhausted = false
  found {id : EntityId} : found = some id → before.exhausted = false ∧ after.exhausted = false

/-- A search that is not made leaves what was found before. -/
theorem Sought.refl {probe : Probe} {found : Option EntityId} (sound : probe.Sound)
    (unended : found.isSome = true → probe.exhausted = false) :
    Sought probe (.ok ()) probe found where
  sound := sound
  failed impossible := by cases impossible
  found present := by
    have goesOn := unended (Option.isSome_of_eq_some present)
    exact ⟨goesOn, goesOn⟩

section Seeking

variable (sound : walk.probe.Sound)
include sound

theorem sound_nextEdge : walk.nextEdge.2.probe.Sound := by
  rw [walk.probe_nextEdge]
  exact sound.advance

theorem sought_error {error : QueryError} (step : walk.nextEdge = (.error error, after)) :
    Sought walk.probe (.error error) after.probe none := by
  have soundAfter := sound_nextEdge sound
  have unended : walk.nextEdge.2.probe.exhausted = false :=
    exhausted_nextEdge (by rw [step]; exact nofun)
  rw [step] at soundAfter unended
  exact ⟨soundAfter, fun _ => unended, nofun⟩

theorem sought_end (step : walk.nextEdge = (.ok none, after)) :
    Sought walk.probe (.ok ()) after.probe none := by
  have soundAfter := sound_nextEdge sound
  rw [step] at soundAfter
  exact ⟨soundAfter, nofun, nofun⟩

theorem sought_edge {edge : Edge} (step : walk.nextEdge = (.ok (some edge), after)) :
    Sought walk.probe (.ok ()) after.probe (some edge.source) := by
  have soundAfter := sound_nextEdge sound
  have goesOn : walk.nextEdge.1 ≠ .ok none := by rw [step]; exact nofun
  have unended := exhausted_nextEdge goesOn
  have unendedBefore : walk.probe.exhausted = false := by
    rw [← Bool.not_eq_true]
    exact fun ended => goesOn (nextEdge_of_exhausted ended)
  rw [step] at soundAfter unended
  exact ⟨soundAfter, nofun, fun _ => ⟨unendedBefore, unended⟩⟩

/-- A search that passes over an edge goes on behind it. -/
theorem sought_again {edge : Edge} (step : walk.nextEdge = (.ok (some edge), after))
    {result : Except QueryError Unit} {final : Probe} {found : Option EntityId}
    (rest : Sought after.probe result final found) : Sought walk.probe result final found := by
  obtain ⟨unended, _⟩ := (sought_edge sound step).found rfl
  exact ⟨rest.sound, rest.failed, fun present => ⟨unended, (rest.found present).2⟩⟩

end Seeking

end LinkWalk

/-! ## Distinct sources -/

namespace SourceWalk

variable {walk : SourceWalk} {cut : Bool}

/-- A walk that is held; a source that it found lies before the end of the index. -/
structure Live (walk : SourceWalk) : Prop where
  sound : walk.links.probe.Sound
  unended {id : EntityId} : walk.lookahead = some id → walk.links.probe.exhausted = false

structure Shut (cut : Bool) (walk : SourceWalk) : Prop where
  links : walk.links.probe.Shut cut
  empty : walk.lookahead = none

theorem sought_seek (sound : walk.links.probe.Sound) (nothing : walk.lookahead = none) :
    LinkWalk.Sought walk.links.probe walk.seek.1 walk.seek.2.links.probe walk.seek.2.lookahead := by
  induction walk using seek.induct with
  | case1 walk error links step =>
      rw [seek, step]
      simp only [nothing]
      exact LinkWalk.sought_error sound step
  | case2 walk links step =>
      rw [seek, step]
      simp only [nothing]
      exact LinkWalk.sought_end sound step
  | case3 walk edge links step repeated inductionHypothesis =>
      rw [seek, step]
      dsimp only
      rw [if_pos repeated]
      have soundAfter := LinkWalk.sound_nextEdge sound
      rw [step] at soundAfter
      exact LinkWalk.sought_again sound step (inductionHypothesis soundAfter nothing)
  | case4 walk edge links step fresh =>
      rw [seek, step]
      simp only [fresh, if_false]
      exact LinkWalk.sought_edge sound step

theorem Live.sought (live : walk.Live) :
    LinkWalk.Sought walk.links.probe walk.fill.1 walk.fill.2.links.probe
      walk.fill.2.lookahead := by
  rw [fill]
  rcases found : walk.lookahead with _ | id
  · exact sought_seek live.sound found
  · have unended := live.unended found
    rw [Option.isSome_some, if_pos rfl]
    exact .refl live.sound fun _ => unended

theorem Shut.rests {after : SourceWalk} (shut : after.links.probe.Shut cut)
    (empty : after.lookahead = none) (same : after.links.probe.cursor = walk.links.probe.cursor) :
    sourceReader.Rests (Shut cut) walk after :=
  ⟨⟨shut, empty⟩, congrArg (fun cursor : Cursor => [cursor.usage]) same⟩

theorem Shut.fill (shut : walk.Shut cut) :
    Refusal () cut walk.fill.1 ∧ sourceReader.Rests (Shut cut) walk walk.fill.2 := by
  obtain ⟨refusal, shutAfter, same⟩ := LinkWalk.nextEdge_of_shut shut.links
  rw [SourceWalk.fill, shut.empty, Option.isSome_none, if_neg Bool.false_ne_true, seek]
  rcases step : walk.links.nextEdge with ⟨error | edge, links⟩
  · rw [step] at refusal shutAfter same
    cases refusal with
    | violation violates => exact ⟨.violation violates, Shut.rests shutAfter shut.empty same⟩
  · rw [step] at refusal shutAfter same
    obtain ⟨rfl, uncut⟩ := refusal.eq_nothing
    exact ⟨.nothing uncut, Shut.rests shutAfter shut.empty same⟩

end SourceWalk

theorem sourceReader_refills :
    sourceReader.Refills SourceWalk.fill SourceWalk.lookahead SourceWalk.take SourceWalk.Live
      (fun walk => walk.links.probe.exhausted = false) SourceWalk.Shut where
  filled live := ⟨live.sought.sound, fun found => (live.sought.found found).2⟩
  failed live failed := live.sought.failed failed
  found live found := (live.sought.found found).1
  taken live := ⟨live.sound, nofun⟩
  shown live found := live.unended found
  last {walk} _ := by
    refine ⟨?_, nofun⟩
    show walk.links.lastEdge.2.probe.Sound
    rw [walk.links.probe_lastEdge]
    exact walk.links.probe.sound_stepBack
  dispose live unended := ⟨live.sound.dispose unended, rfl⟩
  refuses shut := shut.fill.1
  empty shut := shut.empty
  refusesLast {cut walk id} shut := by
    show (walk.links.lastEdge.1.map (Option.map Edge.source)) ≠ .ok (some id)
    rw [LinkWalk.lastEdge_of_shut shut.links]
    exact nofun
  restsFilled shut := shut.fill.2
  restsTaken shut := SourceWalk.Shut.rests shut.links rfl rfl
  restsBack {cut walk} shut := by
    have back : (sourceReader.last walk).2.links.probe =
        { walk.links.probe with answer := none } := by
      show walk.links.lastEdge.2.probe = _
      rw [LinkWalk.lastEdge_of_shut shut.links]
    exact SourceWalk.Shut.rests (by rw [back]; exact shut.links.forget) rfl (by rw [back])
  restsDisposed {cut walk} shut := by
    have same : (sourceReader.dispose walk).2.links.probe = walk.links.probe :=
      congrArg Prod.snd shut.links.dispose
    exact SourceWalk.Shut.rests (same.symm ▸ shut.links) rfl (congrArg Probe.cursor same)

/-! ## Sources into a set -/

namespace JoinWalk

variable {walk : JoinWalk} {cut : Bool}

/-- A walk before its end: neither it nor its cursor has come there. -/
structure Unended (walk : JoinWalk) : Prop where
  undone : walk.done = false
  links : walk.links.probe.exhausted = false

/-- A walk that is held; a source that it found lies before its end. -/
structure Live (walk : JoinWalk) : Prop where
  sound : walk.links.probe.Sound
  unended {id : EntityId} : walk.lookahead = some id → walk.Unended

structure Shut (cut : Bool) (walk : JoinWalk) : Prop where
  links : walk.links.probe.Shut cut
  empty : walk.lookahead = none
  undone : cut = true → walk.done = false

theorem sought_seek (sound : walk.links.probe.Sound) (nothing : walk.lookahead = none) :
    LinkWalk.Sought walk.links.probe walk.seek.1 walk.seek.2.links.probe
      walk.seek.2.lookahead := by
  induction walk using seek.induct with
  | case1 walk error links step =>
      rw [seek, step]
      simp only [nothing]
      exact LinkWalk.sought_error sound step
  | case2 walk links step =>
      rw [seek, step]
      simp only [nothing]
      exact LinkWalk.sought_end sound step
  | case3 walk edge links step accepted =>
      rw [seek, step]
      simp only [accepted, if_true]
      exact LinkWalk.sought_edge sound step
  | case4 walk edge links step rejected inductionHypothesis =>
      rw [seek, step]
      simp only [rejected]
      have soundAfter := LinkWalk.sound_nextEdge sound
      rw [step] at soundAfter
      exact LinkWalk.sought_again sound step (inductionHypothesis soundAfter nothing)

/-- A search is done only where it ends without a source. -/
theorem done_seek (nothing : walk.lookahead = none) :
    (walk.seek.1 = .ok () ∧ walk.seek.2.lookahead = none) ∨ walk.seek.2.done = walk.done := by
  induction walk using seek.induct with
  | case1 walk error links step =>
      rw [seek, step]
      exact .inr rfl
  | case2 walk links step =>
      rw [seek, step]
      exact .inl ⟨rfl, nothing⟩
  | case3 walk edge links step accepted =>
      rw [seek, step]
      simp only [accepted, if_true]
      exact .inr trivial
  | case4 walk edge links step rejected inductionHypothesis =>
      rw [seek, step]
      simp only [rejected]
      exact inductionHypothesis nothing

theorem Live.sought (live : walk.Live) :
    LinkWalk.Sought walk.links.probe walk.fill.1 walk.fill.2.links.probe walk.fill.2.lookahead ∧
      ((walk.fill.1 = .ok () ∧ walk.fill.2.lookahead = none) ∨
        walk.done = false ∧ walk.fill.2.done = false) := by
  rw [fill]
  rcases found : walk.lookahead with _ | id
  · cases ended : walk.done with
    | true =>
        rw [Bool.true_or, if_pos rfl, found]
        exact ⟨.refl live.sound fun present => absurd present Bool.false_ne_true, .inl ⟨rfl, rfl⟩⟩
    | false =>
        have done := done_seek found
        rw [ended] at done
        exact ⟨sought_seek live.sound found, done.imp_right fun undone => ⟨rfl, undone⟩⟩
  · obtain ⟨undone, unended⟩ := live.unended found
    rw [Option.isSome_some, Bool.or_true, if_pos rfl]
    exact ⟨.refl live.sound fun _ => unended, .inr ⟨undone, undone⟩⟩

theorem Live.failed (live : walk.Live) {error : QueryError} (failed : walk.fill.1 = .error error) :
    walk.fill.2.Unended := by
  obtain ⟨sought, ⟨succeeded, _⟩ | ⟨_, undone⟩⟩ := live.sought
  · rw [failed] at succeeded
    cases succeeded
  · exact ⟨undone, sought.failed failed⟩

theorem Live.found (live : walk.Live) {id : EntityId} (found : walk.fill.2.lookahead = some id) :
    walk.Unended ∧ walk.fill.2.Unended := by
  obtain ⟨sought, ⟨_, nothing⟩ | ⟨undone, undoneAfter⟩⟩ := live.sought
  · rw [found] at nothing
    cases nothing
  · obtain ⟨unended, unendedAfter⟩ := sought.found found
    exact ⟨⟨undone, unended⟩, ⟨undoneAfter, unendedAfter⟩⟩

theorem Shut.rests {after : JoinWalk} (shut : after.Shut cut)
    (same : after.links.probe.cursor = walk.links.probe.cursor) :
    joinReader.Rests (Shut cut) walk after :=
  ⟨shut, congrArg (fun cursor : Cursor => [cursor.usage]) same⟩

theorem Shut.fill (shut : walk.Shut cut) :
    Refusal () cut walk.fill.1 ∧ joinReader.Rests (Shut cut) walk walk.fill.2 := by
  rw [JoinWalk.fill, shut.empty, Option.isSome_none, Bool.or_false]
  split
  · rename_i ended
    refine ⟨.nothing ?_, Shut.rests shut rfl⟩
    rw [← Bool.not_eq_true]
    intro isCut
    rw [shut.undone isCut] at ended
    cases ended
  · obtain ⟨refusal, shutAfter, same⟩ := LinkWalk.nextEdge_of_shut shut.links
    rw [seek]
    rcases step : walk.links.nextEdge with ⟨error | edge, links⟩
    · rw [step] at refusal shutAfter same
      cases refusal with
      | violation violates =>
          exact ⟨.violation violates, Shut.rests ⟨shutAfter, shut.empty, shut.undone⟩ same⟩
    · rw [step] at refusal shutAfter same
      obtain ⟨rfl, uncut⟩ := refusal.eq_nothing
      refine ⟨.nothing uncut, Shut.rests ⟨shutAfter, shut.empty, ?_⟩ same⟩
      intro isCut
      rw [uncut] at isCut
      cases isCut

end JoinWalk

theorem joinReader_refills :
    joinReader.Refills JoinWalk.fill JoinWalk.lookahead JoinWalk.take JoinWalk.Live
      JoinWalk.Unended JoinWalk.Shut where
  filled live := ⟨live.sought.1.sound, fun found => (live.found found).2⟩
  failed live failed := live.failed failed
  found live found := (live.found found).1
  taken live := ⟨live.sound, nofun⟩
  shown live found := by
    obtain ⟨undone, unended⟩ := live.unended found
    exact ⟨undone, unended⟩
  last live := live
  dispose live unended := by
    refine ⟨live.sound.dispose ?_, rfl, ?_⟩
    · exact fun isCut => (unended isCut).links
    · exact fun isCut => (unended isCut).undone
  refuses shut := shut.fill.1
  empty shut := shut.empty
  refusesLast _ := nofun
  restsFilled shut := shut.fill.2
  restsTaken shut := JoinWalk.Shut.rests ⟨shut.links, rfl, shut.undone⟩ rfl
  restsBack shut := JoinWalk.Shut.rests shut rfl
  restsDisposed {cut walk} shut := by
    have same : (joinReader.dispose walk).2.links.probe = walk.links.probe :=
      congrArg Prod.snd shut.links.dispose
    have links : (joinReader.dispose walk).2.links.probe.Shut cut := same.symm ▸ shut.links
    exact JoinWalk.Shut.rests ⟨links, rfl, shut.undone⟩ (congrArg Probe.cursor same)

end EntityQuery
