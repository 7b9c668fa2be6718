import EntityQuery.Reader.Traversal

/-!
# What a reader delivers

A state of a reader delivers a list of identities if reading forwards yields exactly these, one
after the other and without an error, and then the end.  Draining such a state answers the list.

Asking for more is coherent with reading: where reading answers without an error, asking tells
whether it yields an identity.  This holds of the readers of every shape, in every state.  The readers
that fill a look-ahead before they are asked or read have this, and more, in common.
-/

namespace EntityQuery

namespace Reader

variable {σ : Type} {reader : Reader σ}

/-- Reading forwards yields a list of identities and then the end. -/
inductive Delivers (reader : Reader σ) : σ → List EntityId → Prop
  | ended {state after : σ} :
      reader.next state = (.ok none, after) → Delivers reader state []
  | yielded {state after : σ} {id : EntityId} {rest : List EntityId} :
      reader.next state = (.ok (some id), after) →
        Delivers reader after rest → Delivers reader state (id :: rest)

/-- States that are read alike deliver the same. -/
theorem Delivers.congr {first second : σ} {ids : List EntityId}
    (delivers : reader.Delivers first ids) (alike : reader.next second = reader.next first) :
    reader.Delivers second ids := by
  cases delivers with
  | ended step => exact .ended (alike.trans step)
  | yielded step delivers => exact .yielded (alike.trans step) delivers

theorem drain_of_error {state after : σ} {error : QueryError}
    (step : reader.next state = (.error error, after)) :
    reader.drain state = (.error error, after) := by
  rw [drain, step]

theorem drain_of_end {state after : σ} (step : reader.next state = (.ok none, after)) :
    reader.drain state = (.ok [], after) := by
  rw [drain, step]

theorem drain_of_yield {state after : σ} {id : EntityId}
    (step : reader.next state = (.ok (some id), after)) :
    reader.drain state = ((reader.drain after).1.map (id :: ·), (reader.drain after).2) := by
  rw [drain, step]

/-- States that are read alike are drained alike. -/
theorem drain_congr {first second : σ} (alike : reader.next first = reader.next second) :
    reader.drain first = reader.drain second := by
  rcases step : reader.next second with ⟨error | found, after⟩
  · rw [drain_of_error step, drain_of_error (alike.trans step)]
  · cases found with
    | none => rw [drain_of_end step, drain_of_end (alike.trans step)]
    | some id => rw [drain_of_yield step, drain_of_yield (alike.trans step)]

theorem drain_of_delivers {state : σ} {ids : List EntityId}
    (delivers : reader.Delivers state ids) : (reader.drain state).1 = .ok ids := by
  induction delivers with
  | ended step => rw [drain_of_end step]
  | yielded step _ inductionHypothesis =>
      rw [drain_of_yield step, inductionHypothesis]
      rfl

/-! ## Asking for more -/

/-- Asking tells whether reading yields, unless reading fails. -/
def Coherent (reader : Reader σ) : Prop :=
  ∀ state found after, reader.next state = (.ok found, after) →
    (reader.hasNext state).1 = .ok found.isSome

theorem hasNext_of_delivers (coherent : reader.Coherent) {state : σ} {ids : List EntityId}
    (delivers : reader.Delivers state ids) : (reader.hasNext state).1 = .ok !ids.isEmpty := by
  cases delivers with
  | ended step => exact coherent _ _ _ step
  | yielded step _ => exact coherent _ _ _ step

/-! ## Looking ahead -/

/-- A reader fills a look-ahead before it is asked or read, and takes it when it is read. -/
structure LooksAhead (reader : Reader σ) (fill : σ → Except QueryError Unit × σ)
    (ahead : σ → Option EntityId) (take : σ → σ) : Prop where
  failed {state after : σ} {error : QueryError} : fill state = (.error error, after) →
    reader.hasNext state = (.error error, after) ∧ reader.next state = (.error error, after)
  filled {state after : σ} : fill state = (.ok (), after) →
    reader.hasNext state = (.ok (ahead after).isSome, after) ∧
      reader.next state = (.ok (ahead after), take after)

namespace LooksAhead

variable {fill : σ → Except QueryError Unit × σ} {ahead : σ → Option EntityId} {take : σ → σ}
  {state asked after : σ}

theorem fill_of_hasNext (looks : reader.LooksAhead fill ahead take) {more : Bool}
    (step : reader.hasNext state = (.ok more, asked)) :
    fill state = (.ok (), asked) ∧ more = (ahead asked).isSome := by
  rcases filling : fill state with ⟨error | done, filled⟩
  · rw [(looks.failed filling).1] at step
    cases step
  · rw [(looks.filled filling).1] at step
    cases step
    exact ⟨rfl, rfl⟩

theorem fill_of_next (looks : reader.LooksAhead fill ahead take) {found : Option EntityId}
    (step : reader.next state = (.ok found, after)) :
    ∃ filled, fill state = (.ok (), filled) ∧ found = ahead filled ∧ after = take filled := by
  rcases filling : fill state with ⟨error | done, filled⟩
  · rw [(looks.failed filling).2] at step
    cases step
  · rw [(looks.filled filling).2] at step
    cases step
    exact ⟨filled, rfl, rfl, rfl⟩

theorem coherent (looks : reader.LooksAhead fill ahead take) : reader.Coherent := by
  intro state found after step
  obtain ⟨filled, filling, rfl, rfl⟩ := looks.fill_of_next step
  rw [(looks.filled filling).1]

/-- Asking leaves what filling leaves. -/
theorem holds_hasNext (looks : reader.LooksAhead fill ahead take) (holds : σ → Prop)
    (filled : holds (fill state).2) : holds (reader.hasNext state).2 := by
  rcases filling : fill state with ⟨error | done, after⟩
  · rw [(looks.failed filling).1]
    rwa [filling] at filled
  · rw [(looks.filled filling).1]
    rwa [filling] at filled

/-- Reading leaves what taking leaves of what filling leaves. -/
theorem holds_next (looks : reader.LooksAhead fill ahead take) (holds : σ → Prop)
    (filled : holds (fill state).2) (taken : ∀ {after}, holds after → holds (take after)) :
    holds (reader.next state).2 := by
  rcases filling : fill state with ⟨error | done, after⟩
  · rw [(looks.failed filling).2]
    rwa [filling] at filled
  · rw [(looks.filled filling).2]
    rw [filling] at filled
    exact taken filled

end LooksAhead

end Reader

theorem Probe.hasNext_of_advance {probe after : Probe} {record : Option Record}
    (step : probe.advance = (.ok record, after)) : probe.hasNext.1 = .ok record.isSome := by
  rw [advance] at step
  split at step
  · cases step
  · rename_i asked
    cases step
    rw [asked]
    rfl
  · rename_i asked
    rw [asked]
    dsimp only at step
    split at step
    · cases step
      rfl
    · cases step

theorem setReader_coherent : setReader.Coherent := by
  intro walk found after step
  change walk.next = _ at step
  show walk.hasNext.1 = _
  rw [SetWalk.next] at step
  rw [SetWalk.hasNext]
  split at step
  · cases step
  · cases step
    rfl

theorem scriptReader_coherent : scriptReader.Coherent := by
  intro script found after step
  cases script with
  | nil =>
      cases step
      rfl
  | cons item rest =>
      cases item with
      | error error => cases step
      | ok id =>
          cases step
          rfl

theorem entityReader_coherent : entityReader.Coherent := by
  intro walk found after step
  change walk.next = _ at step
  show walk.probe.hasNext.1 = _
  rw [EntityWalk.next] at step
  split at step
  · cases step
  · rename_i record probe taken
    rw [Probe.hasNext_of_advance taken]
    cases record with
    | none =>
        cases step
        rfl
    | some record =>
        obtain ⟨decoded, _⟩ := Prod.mk.inj step
        rw [EntityWalk.decode] at decoded
        cases key : Layout.decodeEntityKey walk.typeId record.key with
        | error error =>
            rw [key] at decoded
            cases decoded
        | ok id =>
            rw [key] at decoded
            cases decoded
            rfl

/-- A record that was taken as an edge was there to be asked for. -/
theorem LinkWalk.hasNext_of_nextEdge {walk after : LinkWalk} {edge : Option Edge}
    (step : walk.nextEdge = (.ok edge, after)) : walk.probe.hasNext.1 = .ok edge.isSome := by
  rw [nextEdge] at step
  split at step
  · cases step
  · rename_i taken
    cases step
    exact Probe.hasNext_of_advance taken
  · rename_i record probe taken
    rw [Probe.hasNext_of_advance taken]
    rw [takeEdge] at step
    split at step
    · cases step
    · cases step
      rfl

theorem linkReader_coherent : linkReader.Coherent := by
  intro walk found after step
  change LinkWalk.sourceOf walk.nextEdge = _ at step
  show walk.probe.hasNext.1 = _
  rcases taken : walk.nextEdge with ⟨edge | edge, links⟩
  · rw [taken] at step
    cases step
  · rw [taken] at step
    rw [LinkWalk.hasNext_of_nextEdge taken]
    cases step
    cases edge <;> rfl

/-- What a walk over sources leaves behind a source that is taken. -/
def SourceWalk.take (walk : SourceWalk) : SourceWalk :=
  { walk with previous := walk.lookahead.or walk.previous, lookahead := none }

theorem sourceReader_looksAhead :
    sourceReader.LooksAhead SourceWalk.fill SourceWalk.lookahead SourceWalk.take where
  failed {walk after error} filling := by
    constructor
    · show walk.hasNext = _
      rw [SourceWalk.hasNext, filling]
    · show walk.next = _
      rw [SourceWalk.next, filling]
  filled {walk after} filling := by
    constructor
    · show walk.hasNext = _
      rw [SourceWalk.hasNext, filling]
    · show walk.next = _
      rw [SourceWalk.next, filling]
      rfl

/-- What a walk over a join leaves behind a source that is taken. -/
def JoinWalk.take (walk : JoinWalk) : JoinWalk :=
  { walk with distinct := walk.lookahead.toList ++ walk.distinct, lookahead := none }

theorem joinReader_looksAhead :
    joinReader.LooksAhead JoinWalk.fill JoinWalk.lookahead JoinWalk.take where
  failed {walk after error} filling := by
    constructor
    · show walk.hasNext = _
      rw [JoinWalk.hasNext, filling]
    · show walk.next = _
      rw [JoinWalk.next, filling]
  filled {walk after} filling := by
    constructor
    · show walk.hasNext = _
      rw [JoinWalk.hasNext, filling]
    · show walk.next = _
      rw [JoinWalk.next, filling]
      rfl

theorem pairReader_coherent {σ τ : Type} {left : Reader σ} {right : Reader τ}
    (round : Pair.Round left right) : (pairReader round).Coherent := by
  intro pair found after step
  change pair.next round = _ at step
  show (pair.hasNext round).1 = _
  rw [Pair.next] at step
  rw [Pair.hasNext]
  split at step
  · cases step
    rfl
  · rw [step]

theorem ReaderShape.coherent (shape : ReaderShape) : shape.reader.Coherent := by
  cases shape with
  | empty =>
      intro state found after step
      cases step
      rfl
  | set => exact setReader_coherent
  | script => exact scriptReader_coherent
  | entities => exact entityReader_coherent
  | links => exact linkReader_coherent
  | sources => exact sourceReader_looksAhead.coherent
  | join => exact joinReader_looksAhead.coherent
  | union left right => exact pairReader_coherent (Pair.unionRound left.reader right.reader)
  | intersection left right =>
      exact pairReader_coherent (Pair.intersectionRound left.reader right.reader)

/-! ## Traversals -/

namespace Traversal

variable {traversal : Traversal} {ids : List EntityId}

/-- Reading a traversal forwards yields a list of identities and then the end. -/
def Delivers (traversal : Traversal) (ids : List EntityId) : Prop :=
  traversal.shape.reader.Delivers traversal.state ids

theorem drain_of_delivers (delivers : traversal.Delivers ids) : traversal.drain.1 = .ok ids :=
  Reader.drain_of_delivers delivers

theorem hasNext_of_delivers (delivers : traversal.Delivers ids) :
    traversal.hasNext.1 = .ok !ids.isEmpty :=
  Reader.hasNext_of_delivers traversal.shape.coherent delivers

theorem delivers_empty : empty.Delivers [] := .ended rfl

end Traversal

end EntityQuery
