import EntityQuery.Reader.Traversal

/-!
# What a combination yields of arbitrary children

Nothing is assumed of the children here: they may yield identities in any order, repeat them, fail
at any call, go on after a failure, or end at any point.  A combination is asked, read and disposed
in any order, and reading goes on behind errors.  Still its answers ascend strictly, and each of
them was yielded before by a child, or by both children of an intersection.

The invariant is about the log of everything that the rounds of a pair have answered.  The last
entry of the log is what was yielded last, and no child can bring up anything below it: either the
child shows an identity that is not below, or what was taken of it is not, and then the check of
the order refuses everything below.  Rounds extend the log.  What is kept for the next reading may
be dropped by disposing, so the answers are not the log but a part of it, in its order.
-/

namespace EntityQuery

/-- A call by which a reader is asked for more, read forwards or released. -/
inductive ReaderUse where
  | hasNext
  | next
  | dispose
deriving DecidableEq, Repr

/-- The identity that was yielded, if there is one. -/
def Yield.ids : Yield → List EntityId
  | .ok found => found.toList
  | .error _ => []

/-! ## Calls -/

namespace Reader

variable {σ : Type} {reader : Reader σ} {first state : σ} {ids : List EntityId}

/-- One call, behind the identities that were answered so far. -/
def use (reader : Reader σ) (outcome : List EntityId × σ) : ReaderUse → List EntityId × σ
  | .hasNext => (outcome.1, (reader.hasNext outcome.2).2)
  | .next => (outcome.1 ++ (reader.next outcome.2).1.ids, (reader.next outcome.2).2)
  | .dispose => (outcome.1, (reader.dispose outcome.2).2)

/--
The identities that calls answer one after the other, and the state behind them.  An error of one
call does not stop the next.
-/
def used (reader : Reader σ) (uses : List ReaderUse) (state : σ) : List EntityId × σ :=
  uses.foldl reader.use ([], state)

/-- Some calls answer the given identities and lead to the given state. -/
def Answered (reader : Reader σ) (first : σ) (ids : List EntityId) (state : σ) : Prop :=
  ∃ uses, reader.used uses first = (ids, state)

theorem answered_nil : reader.Answered first [] first := ⟨[], rfl⟩

/-- One call more. -/
theorem Answered.use (answered : reader.Answered first ids state) (call : ReaderUse) :
    reader.Answered first (reader.use (ids, state) call).1 (reader.use (ids, state) call).2 := by
  obtain ⟨uses, outcome⟩ := answered
  refine ⟨uses ++ [call], ?_⟩
  rw [used, List.foldl_append, ← used, outcome]
  rfl

end Reader

/-! ## One child -/

namespace Feed

variable {σ : Type} {reader : Reader σ} {combination : Combination} {side : Side}
  {feed : Feed σ}

/-- What filling a child can come to. -/
inductive Filling (reader : Reader σ) (combination : Combination) (side : Side) (feed : Feed σ) :
    Except QueryError Unit × Feed σ → Prop
  | kept (available : feed.item = none → feed.done = true) :
      Filling reader combination side feed (.ok (), feed)
  | failed {error : QueryError} {state : σ} (unfilled : feed.item = none)
      (unended : feed.done = false) (step : reader.next feed.state = (.error error, state)) :
      Filling reader combination side feed (.error error, { feed with state })
  | ended {state : σ} (unfilled : feed.item = none) (unended : feed.done = false)
      (step : reader.next feed.state = (.ok none, state)) :
      Filling reader combination side feed (.ok (), { feed with state, done := true })
  | found {id : EntityId} {state : σ} (unfilled : feed.item = none) (unended : feed.done = false)
      (step : reader.next feed.state = (.ok (some id), state))
      (inOrder : ∀ previous ∈ feed.last, previous ≤ id) :
      Filling reader combination side feed (.ok (), { feed with state, item := some id })
  | refused {id previous : EntityId} {state : σ} (unfilled : feed.item = none)
      (unended : feed.done = false) (step : reader.next feed.state = (.ok (some id), state))
      (taken : feed.last = some previous) (below : id < previous) :
      Filling reader combination side feed
        (.error (.childOutOfOrder combination side previous id), { feed with state })

theorem filling_fill (reader : Reader σ) (combination : Combination) (side : Side)
    (feed : Feed σ) :
    feed.Filling reader combination side (feed.fill reader combination side) := by
  rw [fill]
  split
  · rename_i available
    refine .kept ?_
    intro unfilled
    simpa [unfilled] using available
  · rename_i unavailable
    simp only [Bool.or_eq_true, not_or, Bool.not_eq_true, Option.isSome_eq_false_iff,
      Option.isNone_iff_eq_none] at unavailable
    obtain ⟨unended, unfilled⟩ := unavailable
    split
    · exact .failed unfilled unended (by assumption)
    · exact .ended unfilled unended (by assumption)
    · rename_i id state step
      rw [accept]
      split
      · rename_i nothing
        refine .found unfilled unended step ?_
        intro previous taken
        rw [show feed.last = none from nothing] at taken
        cases taken
      · rename_i previous taken
        split
        · exact .refused unfilled unended step taken (by assumption)
        · rename_i notBelow
          refine .found unfilled unended step ?_
          intro other otherTaken
          rw [show feed.last = some previous from taken] at otherTaken
          cases otherTaken
          exact notBelow

/-- A child that was filled shows an identity, or it has ended. -/
theorem done_of_fill {filled : Feed σ}
    (filling : feed.fill reader combination side = (.ok (), filled))
    (unfilled : filled.item = none) : filled.done = true := by
  have possible := feed.filling_fill reader combination side
  rw [filling] at possible
  cases possible with
  | kept available => exact available unfilled
  | ended => rfl
  | found => cases unfilled

/--
Nothing below a bound can come of a child any more: it shows an identity that is not below, or it
has ended, or what was taken of it last is not below.
-/
structure Beyond (feed : Feed σ) (bound : EntityId) : Prop where
  shown : ∀ id ∈ feed.item, bound ≤ id
  taken : feed.item = none → feed.done = false → ∃ previous ∈ feed.last, bound ≤ previous

theorem Beyond.fill {bound : EntityId} (beyond : feed.Beyond bound) (reader : Reader σ)
    (combination : Combination) (side : Side) :
    (feed.fill reader combination side).2.Beyond bound := by
  have filling := feed.filling_fill reader combination side
  generalize feed.fill reader combination side = result at filling
  cases filling with
  | kept => exact beyond
  | failed => exact ⟨beyond.shown, beyond.taken⟩
  | ended => exact ⟨beyond.shown, nofun⟩
  | found unfilled unended step inOrder =>
      obtain ⟨previous, taken, notBelow⟩ := beyond.taken unfilled unended
      refine ⟨?_, nofun⟩
      rintro id ⟨⟩
      exact EntityId.le_trans notBelow (inOrder previous taken)
  | refused => exact ⟨beyond.shown, beyond.taken⟩

theorem last_take {id : EntityId} (shown : feed.item = some id) : feed.take.last = some id := by
  rw [Feed.take, shown, Option.some_or]

theorem Beyond.take {bound : EntityId} (beyond : feed.Beyond bound) :
    feed.take.Beyond bound where
  shown := nofun
  taken _ unended := by
    cases shown : feed.item with
    | none =>
        obtain ⟨previous, taken, notBelow⟩ := beyond.taken shown unended
        exact ⟨previous, by rw [Feed.take, shown]; exact taken, notBelow⟩
    | some id => exact ⟨id, last_take shown, beyond.shown id shown⟩

/-- What was taken of a child bounds what comes after it. -/
theorem beyond_take {id : EntityId} (shown : feed.item = some id) : feed.take.Beyond id where
  shown := nofun
  taken _ _ := ⟨id, last_take shown, EntityId.le_refl id⟩

/-- What a child shows bounds what comes after it. -/
theorem beyond_of_filled {bound : EntityId} (filled : feed.item = none → feed.done = true)
    (shown : ∀ id ∈ feed.item, bound ≤ id) : feed.Beyond bound where
  shown := shown
  taken unfilled unended := by
    rw [filled unfilled] at unended
    cases unended

/-- The identities that a child has yielded; what it shows and what was taken are among them. -/
structure Heard (reader : Reader σ) (first : σ) (feed : Feed σ) (ids : List EntityId) : Prop where
  answered : reader.Answered first ids feed.state
  shown : ∀ id ∈ feed.item, id ∈ ids
  taken : ∀ id ∈ feed.last, id ∈ ids

theorem heard_ofState (reader : Reader σ) (first : σ) : (ofState first).Heard reader first [] :=
  ⟨Reader.answered_nil, nofun, nofun⟩

theorem Heard.take {first : σ} {ids : List EntityId} (heard : feed.Heard reader first ids) :
    feed.take.Heard reader first ids where
  answered := heard.answered
  shown := nofun
  taken id taken := by
    rcases Option.or_eq_some_iff.1 taken with shown | ⟨_, taken⟩
    · exact heard.shown id shown
    · exact heard.taken id taken

theorem Heard.fill {first : σ} {ids : List EntityId} (heard : feed.Heard reader first ids)
    (combination : Combination) (side : Side) :
    ∃ more, (feed.fill reader combination side).2.Heard reader first (ids ++ more) := by
  have reading := heard.answered.use .next
  have filling := feed.filling_fill reader combination side
  generalize feed.fill reader combination side = result at filling
  have shown (more : List EntityId) (id : EntityId) (present : id ∈ feed.item) :
      id ∈ ids ++ more := List.mem_append_left more (heard.shown id present)
  have taken (more : List EntityId) (id : EntityId) (present : id ∈ feed.last) :
      id ∈ ids ++ more := List.mem_append_left more (heard.taken id present)
  cases filling with
  | kept => exact ⟨[], by rwa [List.append_nil]⟩
  | failed unfilled unended step =>
      rw [Reader.use, step] at reading
      exact ⟨_, reading, shown _, taken _⟩
  | ended unfilled unended step =>
      rw [Reader.use, step] at reading
      exact ⟨_, reading, shown _, taken _⟩
  | found unfilled unended step =>
      rw [Reader.use, step] at reading
      refine ⟨_, reading, ?_, taken _⟩
      rintro id ⟨⟩
      exact List.mem_append_right ids List.mem_cons_self
  | refused unfilled unended step =>
      rw [Reader.use, step] at reading
      exact ⟨_, reading, shown _, taken _⟩

/-- Disposing a child leaves what it has yielded. -/
theorem Heard.dispose {first : σ} {ids : List EntityId} (heard : feed.Heard reader first ids) :
    ({ feed with state := (reader.dispose feed.state).2 } : Feed σ).Heard reader first ids :=
  ⟨heard.answered.use .dispose, heard.shown, heard.taken⟩

end Feed

/-! ## Combinations -/

namespace Combination

/-- What a combination asks of an identity, given that the children have yielded it or not. -/
def requires : Combination → Prop → Prop → Prop
  | .union => Or
  | .intersection => And

theorem requires_mono (combination : Combination) {left right leftMore rightMore : Prop}
    (fromLeft : left → leftMore) (fromRight : right → rightMore)
    (required : combination.requires left right) : combination.requires leftMore rightMore := by
  cases combination with
  | union => exact Or.imp fromLeft fromRight required
  | intersection => exact And.imp fromLeft fromRight required

/-- The reader of a combination of two children. -/
def reader {σ τ : Type} (combination : Combination) (left : Reader σ) (right : Reader τ) :
    Reader (Pair σ τ) :=
  match combination with
  | .union => unionReader left right
  | .intersection => intersectionReader left right

end Combination

namespace Pair

variable {σ τ : Type} {left : Reader σ} {right : Reader τ} {first : σ} {second : τ}
  {combination : Combination} {pair : Pair σ τ} {log : List EntityId}

theorem takeLeast_eq_none (nothing : pair.takeLeast = none) :
    pair.left.item = none ∧ pair.right.item = none := by
  rw [takeLeast] at nothing
  split at nothing
  · exact ⟨by assumption, by assumption⟩
  · cases nothing
  · cases nothing
  · split at nothing
    · cases nothing
    · split at nothing <;> cases nothing

/-- The outcome of taking the least head: it comes from the left, from the right or from both. -/
theorem takeLeast_cases {taken : Pair σ τ} {id : EntityId}
    (least : pair.takeLeast = some (id, taken)) :
    (pair.left.item = some id ∧ (∀ other ∈ pair.right.item, id ≤ other) ∧
        taken = pair.takeLeft) ∨
      (pair.right.item = some id ∧ (∀ other ∈ pair.left.item, id ≤ other) ∧
        taken = pair.takeRight) ∨
      (pair.left.item = some id ∧ pair.right.item = some id ∧
        taken = pair.takeLeft.takeRight) := by
  rw [takeLeast] at least
  split at least
  · cases least
  · rename_i leftItem rightItem
    cases least
    exact .inl ⟨leftItem, by simp [rightItem], rfl⟩
  · rename_i leftItem rightItem
    cases least
    exact .inr (.inl ⟨rightItem, by simp [leftItem], rfl⟩)
  · rename_i leftId rightId leftItem rightItem
    split at least
    · rename_i less
      cases least
      refine .inl ⟨leftItem, ?_, rfl⟩
      intro other shown
      rw [rightItem] at shown
      cases shown
      exact EntityId.le_of_lt less
    · rename_i notLess
      split at least
      · rename_i greater
        cases least
        refine .inr (.inl ⟨rightItem, ?_, rfl⟩)
        intro other shown
        rw [leftItem] at shown
        cases shown
        exact EntityId.le_of_lt greater
      · rename_i notGreater
        cases least
        obtain rfl := EntityId.eq_of_not_lt notLess notGreater
        exact .inr (.inr ⟨leftItem, rightItem, rfl⟩)

/-- The identities that a round answers. -/
def said : Option Yield → List EntityId
  | none => []
  | some answer => answer.ids

/-- The log of everything that rounds have answered, of a pair of children. -/
structure Emits (combination : Combination) (left : Reader σ) (right : Reader τ) (first : σ)
    (second : τ) (pair : Pair σ τ) (log : List EntityId) : Prop where
  ascending : log.Pairwise (· < ·)
  emitted : pair.emitted = log.getLast?
  leftBeyond : ∀ last ∈ pair.emitted, pair.left.Beyond last
  rightBeyond : ∀ last ∈ pair.emitted, pair.right.Beyond last
  heard : ∃ leftIds rightIds, pair.left.Heard left first leftIds ∧
    pair.right.Heard right second rightIds ∧
      ∀ id ∈ log, combination.requires (id ∈ leftIds) (id ∈ rightIds)

theorem emits_ofStates (combination : Combination) (left : Reader σ) (right : Reader τ)
    (first : σ) (second : τ) :
    (ofStates first second).Emits combination left right first second [] where
  ascending := .nil
  emitted := rfl
  leftBeyond := nofun
  rightBeyond := nofun
  heard := ⟨[], [], Feed.heard_ofState left first, Feed.heard_ofState right second, nofun⟩

section Steps

variable (emits : pair.Emits combination left right first second log)
include emits

theorem Emits.fillLeft :
    (pair.fillLeft left combination).2.Emits combination left right first second log where
  ascending := emits.ascending
  emitted := emits.emitted
  leftBeyond last present := (emits.leftBeyond last present).fill left combination .left
  rightBeyond := emits.rightBeyond
  heard := by
    obtain ⟨leftIds, rightIds, leftHeard, rightHeard, required⟩ := emits.heard
    obtain ⟨more, filledHeard⟩ := leftHeard.fill combination .left
    refine ⟨leftIds ++ more, rightIds, filledHeard, rightHeard, ?_⟩
    intro id member
    exact combination.requires_mono (List.mem_append_left more) (fun present => present)
      (required id member)

theorem Emits.fillRight :
    (pair.fillRight right combination).2.Emits combination left right first second log where
  ascending := emits.ascending
  emitted := emits.emitted
  leftBeyond := emits.leftBeyond
  rightBeyond last present := (emits.rightBeyond last present).fill right combination .right
  heard := by
    obtain ⟨leftIds, rightIds, leftHeard, rightHeard, required⟩ := emits.heard
    obtain ⟨more, filledHeard⟩ := rightHeard.fill combination .right
    refine ⟨leftIds, rightIds ++ more, leftHeard, filledHeard, ?_⟩
    intro id member
    exact combination.requires_mono (fun present => present) (List.mem_append_left more)
      (required id member)

theorem Emits.fillBoth :
    (pair.fillBoth left right combination).2.Emits combination left right first second log := by
  have filledLeft := emits.fillLeft
  rw [Pair.fillBoth]
  split
  · rename_i step
    rwa [step] at filledLeft
  · rename_i step
    rw [step] at filledLeft
    exact filledLeft.fillRight

theorem Emits.fillUntilEnd :
    (pair.fillUntilEnd left right combination).2.Emits combination left right first second
      log := by
  have filledLeft := emits.fillLeft
  rw [Pair.fillUntilEnd]
  split
  · rename_i step
    rwa [step] at filledLeft
  · rename_i step
    rw [step] at filledLeft
    split
    · exact filledLeft
    · exact filledLeft.fillRight

theorem Emits.takeLeft : pair.takeLeft.Emits combination left right first second log where
  ascending := emits.ascending
  emitted := emits.emitted
  leftBeyond last present := (emits.leftBeyond last present).take
  rightBeyond := emits.rightBeyond
  heard := by
    obtain ⟨leftIds, rightIds, leftHeard, rightHeard, required⟩ := emits.heard
    exact ⟨leftIds, rightIds, leftHeard.take, rightHeard, required⟩

theorem Emits.takeRight : pair.takeRight.Emits combination left right first second log where
  ascending := emits.ascending
  emitted := emits.emitted
  leftBeyond := emits.leftBeyond
  rightBeyond last present := (emits.rightBeyond last present).take
  heard := by
    obtain ⟨leftIds, rightIds, leftHeard, rightHeard, required⟩ := emits.heard
    exact ⟨leftIds, rightIds, leftHeard, rightHeard.take, required⟩

/-- What is not below the last answer, and does not repeat it, is above every answer. -/
theorem Emits.lt_of_fresh {id : EntityId} (notBelow : ∀ last ∈ pair.emitted, last ≤ id)
    (fresh : pair.emitted ≠ some id) : ∀ earlier ∈ log, earlier < id := by
  intro earlier member
  obtain ⟨last, lastLog⟩ := Option.isSome_iff_exists.1
    (List.getLast?_isSome.2 (List.ne_nil_of_mem member))
  have emitted : pair.emitted = some last := emits.emitted.trans lastLog
  have lastAbove : last < id := by
    apply EntityId.lt_of_not_lt_of_ne (notBelow last emitted)
    rintro rfl
    exact fresh emitted
  obtain ⟨others, rfl⟩ := List.getLast?_eq_some_iff.1 lastLog
  rcases List.mem_append.1 member with earlierMember | lastMember
  · have below := (List.pairwise_append.1 emits.ascending).2.2 earlier earlierMember last
      List.mem_cons_self
    exact EntityId.lt_trans below lastAbove
  · rwa [List.mem_singleton.1 lastMember]

/-- An identity that was taken is answered, or it repeats the last answer and is left out. -/
theorem Emits.emitOnce {id : EntityId} (notBelow : ∀ last ∈ pair.emitted, last ≤ id)
    (leftBeyond : pair.left.Beyond id) (rightBeyond : pair.right.Beyond id)
    (taken : combination.requires (id ∈ pair.left.last) (id ∈ pair.right.last)) :
    (pair.emitOnce id).2.Emits combination left right first second
      (log ++ said (pair.emitOnce id).1) := by
  rw [Pair.emitOnce]
  split
  · rwa [said, List.append_nil]
  · rename_i fresh
    have above := emits.lt_of_fresh notBelow fresh
    obtain ⟨leftIds, rightIds, leftHeard, rightHeard, required⟩ := emits.heard
    refine ⟨?_, (List.getLast?_concat ..).symm, ?_, ?_, leftIds, rightIds, leftHeard, rightHeard,
      ?_⟩
    · refine List.pairwise_append.2 ⟨emits.ascending, List.pairwise_singleton _ _, ?_⟩
      intro earlier member other otherMember
      rw [List.mem_singleton.1 otherMember]
      exact above earlier member
    · rintro last ⟨⟩
      exact leftBeyond
    · rintro last ⟨⟩
      exact rightBeyond
    · intro other member
      rcases List.mem_append.1 member with member | member
      · exact required other member
      · rw [List.mem_singleton.1 member]
        exact combination.requires_mono (leftHeard.taken id) (rightHeard.taken id) taken

end Steps

/-! ## Rounds -/

/-- Children that were filled show identities, or they have ended. -/
theorem done_of_fillBoth {filled : Pair σ τ}
    (filling : pair.fillBoth left right combination = (.ok (), filled)) :
    (filled.left.item = none → filled.left.done = true) ∧
      (filled.right.item = none → filled.right.done = true) := by
  rw [fillBoth] at filling
  split at filling
  · cases filling
  · rename_i half leftFilling
    rw [fillLeft] at leftFilling
    rw [fillRight] at filling
    obtain ⟨leftResult, rfl⟩ := Prod.mk.inj leftFilling
    obtain ⟨rightResult, rfl⟩ := Prod.mk.inj filling
    constructor
    · exact Feed.done_of_fill (Prod.ext leftResult rfl)
    · exact Feed.done_of_fill (Prod.ext rightResult rfl)

theorem Emits.unionStep (emits : pair.Emits .union left right first second log) :
    (pair.unionStep left right).2.Emits .union left right first second
      (log ++ said (pair.unionStep left right).1) := by
  have filledEmits := emits.fillBoth
  rw [Pair.unionStep]
  split
  · rename_i step
    rw [step] at filledEmits
    rwa [said, Yield.ids, List.append_nil]
  · rename_i filled step
    rw [step] at filledEmits
    obtain ⟨leftDone, rightDone⟩ := done_of_fillBoth step
    split
    · rwa [said, Yield.ids, Option.toList_none, List.append_nil]
    · rename_i id taken least
      rcases takeLeast_cases least with
        ⟨leftItem, notAbove, rfl⟩ | ⟨rightItem, notAbove, rfl⟩ | ⟨leftItem, rightItem, rfl⟩
      · refine filledEmits.takeLeft.emitOnce ?_ ?_ ?_ (.inl ?_)
        · exact fun last present => (filledEmits.leftBeyond last present).shown id leftItem
        · exact Feed.beyond_take leftItem
        · exact Feed.beyond_of_filled rightDone notAbove
        · exact Feed.last_take leftItem
      · refine filledEmits.takeRight.emitOnce ?_ ?_ ?_ (.inr ?_)
        · exact fun last present => (filledEmits.rightBeyond last present).shown id rightItem
        · exact Feed.beyond_of_filled leftDone notAbove
        · exact Feed.beyond_take rightItem
        · exact Feed.last_take rightItem
      · refine filledEmits.takeLeft.takeRight.emitOnce ?_ ?_ ?_ (.inl ?_)
        · exact fun last present => (filledEmits.leftBeyond last present).shown id leftItem
        · exact Feed.beyond_take leftItem
        · exact Feed.beyond_take rightItem
        · exact Feed.last_take leftItem

theorem Emits.intersectionStep (emits : pair.Emits .intersection left right first second log) :
    (pair.intersectionStep left right).2.Emits .intersection left right first second
      (log ++ said (pair.intersectionStep left right).1) := by
  have filledEmits := emits.fillUntilEnd
  rw [Pair.intersectionStep]
  split
  · rename_i step
    rw [step] at filledEmits
    rwa [said, Yield.ids, List.append_nil]
  · rename_i filled step
    rw [step] at filledEmits
    split
    · rwa [said, Yield.ids, Option.toList_none, List.append_nil]
    · split
      · rename_i leftId rightId leftItem rightItem
        split
        · rw [said, List.append_nil]
          exact filledEmits.takeLeft
        · split
          · rw [said, List.append_nil]
            exact filledEmits.takeRight
          · rename_i notLess notGreater
            obtain rfl := EntityId.eq_of_not_lt notLess notGreater
            refine filledEmits.takeLeft.takeRight.emitOnce ?_ ?_ ?_ ⟨?_, ?_⟩
            · exact fun last present => (filledEmits.leftBeyond last present).shown leftId leftItem
            · exact Feed.beyond_take leftItem
            · exact Feed.beyond_take rightItem
            · exact Feed.last_take leftItem
            · simp [Pair.takeRight, Pair.takeLeft, Feed.take, rightItem]
      · rwa [said, Yield.ids, Option.toList_none, List.append_nil]

/-! ## Runs -/

/-- Rounds that extend the log. -/
def Round.Extends (combination : Combination) (first : σ) (second : τ)
    (round : Round left right) : Prop :=
  ∀ {pair log}, pair.Emits combination left right first second log →
    (round.step pair).2.Emits combination left right first second
      (log ++ said (round.step pair).1)

variable {round : Round left right}

/-- Fetching extends the log by what it answers. -/
theorem Emits.fetch (extending : round.Extends combination first second)
    (emits : pair.Emits combination left right first second log) :
    (pair.fetch round).2.Emits combination left right first second
      (log ++ (pair.fetch round).1.ids) := by
  induction pair using fetch.induct round with
  | case1 pair found after step =>
      have extended := extending emits
      rw [step] at extended
      rw [Pair.fetch, step]
      exact extended
  | case2 pair after step inductionHypothesis =>
      have extended := extending emits
      rw [step, said, List.append_nil] at extended
      rw [Pair.fetch, step]
      exact inductionHypothesis extended

/-- What was fetched for a question, if it was not read yet. -/
def unread (pair : Pair σ τ) : List EntityId := pair.pending.join.toList

/-- What was answered, and what is kept for the next reading, is part of the log. -/
def Traced (combination : Combination) (left : Reader σ) (right : Reader τ) (first : σ)
    (second : τ) (outcome : List EntityId × Pair σ τ) : Prop :=
  ∃ log, outcome.2.Emits combination left right first second log ∧
    (outcome.1 ++ outcome.2.unread).Sublist log

/-- What is kept for the next reading plays no part in what was emitted. -/
theorem Emits.withPending (emits : pair.Emits combination left right first second log)
    (pending : Option (Option EntityId)) :
    ({ pair with pending } : Pair σ τ).Emits combination left right first second log :=
  ⟨emits.ascending, emits.emitted, emits.leftBeyond, emits.rightBeyond, emits.heard⟩

theorem Emits.dispose (emits : pair.Emits combination left right first second log) :
    (pair.dispose left right).2.Emits combination left right first second log where
  ascending := emits.ascending
  emitted := emits.emitted
  leftBeyond last present :=
    ⟨(emits.leftBeyond last present).shown, (emits.leftBeyond last present).taken⟩
  rightBeyond last present :=
    ⟨(emits.rightBeyond last present).shown, (emits.rightBeyond last present).taken⟩
  heard := by
    obtain ⟨leftIds, rightIds, leftHeard, rightHeard, required⟩ := emits.heard
    exact ⟨leftIds, rightIds, leftHeard.dispose, rightHeard.dispose, required⟩

section Calls

variable {answered : List EntityId}

theorem unread_of_pending {pending : Option (Option EntityId)} (kept : pair.pending = pending) :
    pair.unread = pending.join.toList := by
  rw [unread, kept]

/-- Where nothing is kept, what was answered alone is part of the log. -/
theorem sublist_of_pending_eq_none (kept : pair.pending = none)
    (part : (answered ++ pair.unread).Sublist log) : answered.Sublist log := by
  rwa [unread_of_pending kept, Option.join_none, Option.toList_none, List.append_nil] at part

/-- Where nothing is kept, an answer that is fetched goes behind the others. -/
theorem Traced.fetch (extending : round.Extends combination first second)
    (traced : Traced combination left right first second (answered, pair))
    (kept : pair.pending = none) :
    Traced combination left right first second
      (answered ++ (pair.fetch round).1.ids, (pair.fetch round).2) := by
  obtain ⟨log, emits, part⟩ := traced
  refine ⟨_, emits.fetch extending, ?_⟩
  rw [unread_of_pending ((pair.pending_fetch round).trans kept), Option.join_none,
    Option.toList_none, List.append_nil]
  exact (sublist_of_pending_eq_none kept part).append_right _

theorem Traced.hasNext (extending : round.Extends combination first second)
    (traced : Traced combination left right first second (answered, pair)) :
    Traced combination left right first second (answered, (pair.hasNext round).2) := by
  rw [Pair.hasNext]
  cases kept : pair.pending with
  | some pending => exact traced
  | none =>
      have fetched := traced.fetch extending kept
      rcases step : pair.fetch round with ⟨error | found, after⟩
      · rw [step, Yield.ids, List.append_nil] at fetched
        exact fetched
      · rw [step] at fetched
        obtain ⟨log, emits, part⟩ := fetched
        exact ⟨log, emits.withPending (some found), (List.sublist_append_left _ _).trans part⟩

theorem Traced.next (extending : round.Extends combination first second)
    (traced : Traced combination left right first second (answered, pair)) :
    Traced combination left right first second
      (answered ++ (pair.next round).1.ids, (pair.next round).2) := by
  rw [Pair.next]
  cases kept : pair.pending with
  | some pending =>
      obtain ⟨log, emits, part⟩ := traced
      refine ⟨log, emits.withPending none, ?_⟩
      change (answered ++ pair.unread).Sublist log at part
      rw [unread_of_pending kept] at part
      rwa [unread, Yield.ids, Option.join_none, Option.toList_none, List.append_nil]
  | none => exact traced.fetch extending kept

/-- What is kept is dropped, and stays in the log. -/
theorem Traced.dispose (traced : Traced combination left right first second (answered, pair)) :
    Traced combination left right first second (answered, (pair.dispose left right).2) := by
  obtain ⟨log, emits, part⟩ := traced
  have fewer : (answered ++ (pair.dispose left right).2.unread).Sublist
      (answered ++ pair.unread) :=
    (List.append_sublist_append_left answered).2 (List.nil_sublist _)
  exact ⟨log, emits.dispose, fewer.trans part⟩

end Calls

theorem Traced.use (extending : round.Extends combination first second)
    {outcome : List EntityId × Pair σ τ}
    (traced : Traced combination left right first second outcome) (call : ReaderUse) :
    Traced combination left right first second ((pairReader round).use outcome call) := by
  cases call with
  | hasNext => exact traced.hasNext extending
  | next => exact traced.next extending
  | dispose => exact traced.dispose

theorem traced_used (extending : round.Extends combination first second)
    (uses : List ReaderUse) :
    Traced combination left right first second
      ((pairReader round).used uses (ofStates first second)) := by
  have start : Traced combination left right first second ([], ofStates first second) :=
    ⟨[], emits_ofStates combination left right first second, .slnil⟩
  rw [Reader.used]
  generalize ([], ofStates first second) = outcome at start
  induction uses generalizing outcome with
  | nil => exact start
  | cons call rest inductionHypothesis => exact inductionHypothesis _ (start.use extending call)

/-- Answers that ascend strictly and come from the children, as their combination requires. -/
structure Sound (combination : Combination) (left : Reader σ) (right : Reader τ) (first : σ)
    (second : τ) (outcome : List EntityId × Pair σ τ) : Prop where
  ascending : outcome.1.Pairwise (· < ·)
  produced : ∃ leftUses rightUses,
    (left.used leftUses first).2 = outcome.2.left.state ∧
    (right.used rightUses second).2 = outcome.2.right.state ∧
    ∀ id ∈ outcome.1, combination.requires (id ∈ (left.used leftUses first).1)
      (id ∈ (right.used rightUses second).1)

theorem Traced.sound {outcome : List EntityId × Pair σ τ}
    (traced : Traced combination left right first second outcome) :
    Sound combination left right first second outcome := by
  obtain ⟨log, emits, part⟩ := traced
  have answers := (List.sublist_append_left _ _).trans part
  obtain ⟨leftIds, rightIds, leftHeard, rightHeard, required⟩ := emits.heard
  obtain ⟨leftUses, leftUsed⟩ := leftHeard.answered
  obtain ⟨rightUses, rightUsed⟩ := rightHeard.answered
  refine ⟨emits.ascending.sublist answers, leftUses, rightUses, ?_, ?_, ?_⟩
  · rw [leftUsed]
  · rw [rightUsed]
  · intro id member
    rw [leftUsed, rightUsed]
    exact required id (answers.subset member)

end Pair

/--
Whatever its children do, a combination answers strictly ascending identities, each of which a child
has yielded to it before, or both children if it is an intersection.
-/
theorem Combination.answers_ascend {σ τ : Type} (combination : Combination) (left : Reader σ)
    (right : Reader τ) (first : σ) (second : τ) (uses : List ReaderUse) :
    Pair.Sound combination left right first second
      ((combination.reader left right).used uses (.ofStates first second)) := by
  cases combination with
  | union =>
      have extending : (Pair.unionRound left right).Extends .union first second :=
        Pair.Emits.unionStep
      exact (Pair.traced_used extending uses).sound
  | intersection =>
      have extending : (Pair.intersectionRound left right).Extends .intersection first second :=
        Pair.Emits.intersectionStep
      exact (Pair.traced_used extending uses).sound

end EntityQuery
