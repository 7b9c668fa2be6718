import EntityQuery.Proofs.Engine.Queries
import EntityQuery.Proofs.Reader.Asking

/-!
# Traversals that are asked and read

A traversal that a query answers on a store in memory is asked ahead and read in any order.  The
invariant of such a run is the list of the identities that lie ahead: a question leaves it, and a
reading takes its head.  The list is the same whatever was asked in between, so the questions change
nothing of what is read, and what they are answered tells what is read next.  Once the list is used
up, the traversal is in one of two states, asked or not, and no call moves a cursor.

The cache may hold anything here.  What it serves is a set, and only that the identities of a set
ascend is used.
-/

namespace EntityQuery

/-! ## Calls -/

/-- A call that asks a traversal ahead or reads it. -/
inductive Forward where
  | hasNext
  | next
deriving DecidableEq, Repr

namespace Forward

def call : Forward → ReaderCall
  | .hasNext => .hasNext
  | .next => .next

/-- The reply to a call when nothing is left. -/
def silence : Forward → Except QueryError ReaderReply
  | .hasNext => .ok (.flag false)
  | .next => .ok (.identity none)

/-- The replies to the calls that read, out of the replies to all calls. -/
def readings {α : Type} (calls : List Forward) (replies : List α) : List α :=
  ((calls.zip replies).filter fun exchange => exchange.1 = .next).map Prod.snd

/-- The replies of a traversal with the given identities ahead. -/
def replies : List Forward → List EntityId → List (Except QueryError ReaderReply)
  | [], _ => []
  | .hasNext :: rest, ids => .ok (.flag !ids.isEmpty) :: replies rest ids
  | .next :: rest, ids => .ok (.identity ids.head?) :: replies rest ids.tail

theorem readings_replies (calls : List Forward) (ids : List EntityId) :
    readings calls (replies calls ids) =
      replies (List.replicate (calls.count .next) .next) ids := by
  induction calls generalizing ids with
  | nil => rfl
  | cons call rest inductionHypothesis =>
      cases call with
      | hasNext => simpa [readings, replies] using inductionHypothesis ids
      | next =>
          rw [List.count_cons_self, List.replicate_succ, replies, replies, ← inductionHypothesis]
          rfl

end Forward

namespace Traversal

variable {traversal : Traversal} {ids : List EntityId}

/-- The replies to calls that ask and read, and the traversal behind them. -/
def forth (traversal : Traversal) (calls : List Forward) :
    List (Except QueryError ReaderReply) × Traversal :=
  callAll (calls.map Forward.call) traversal

theorem forth_hasNext {asked : Traversal} {more : Bool}
    (step : traversal.hasNext = (.ok more, asked)) (rest : List Forward) :
    traversal.forth (.hasNext :: rest) =
      (.ok (.flag more) :: (asked.forth rest).1, (asked.forth rest).2) := by
  simp [forth, Forward.call, callAll, call, step, Except.map]

theorem forth_next {after : Traversal} {found : Option EntityId}
    (step : traversal.next = (.ok found, after)) (rest : List Forward) :
    traversal.forth (.next :: rest) =
      (.ok (.identity found) :: (after.forth rest).1, (after.forth rest).2) := by
  simp [forth, Forward.call, callAll, call, step, Except.map]

/-! ## What lies ahead -/

/-- A traversal with the given identities ahead. -/
structure Stands (traversal : Traversal) (ids : List EntityId) : Prop where
  fit : traversal.shape.Fit traversal.state
  delivers : traversal.Delivers ids

/-- A question is answered by what lies ahead, and changes nothing for what follows. -/
theorem Stands.ask (stands : traversal.Stands ids) :
    ∃ asked, traversal.hasNext = (.ok !ids.isEmpty, asked) ∧ asked.Stands ids ∧
      asked.hasNext = traversal.hasNext ∧ asked.next = traversal.next := by
  have answered := hasNext_of_delivers stands.delivers
  rcases step : traversal.shape.reader.hasNext traversal.state with ⟨answer, state⟩
  have asking : traversal.hasNext = (answer, ⟨traversal.shape, state⟩) := by
    rw [hasNext, step]
    rfl
  rw [asking] at answered
  rw [show answer = .ok !ids.isEmpty from answered] at step asking
  obtain ⟨fit, again, alike⟩ := traversal.shape.steady.ask stands.fit step
  refine ⟨⟨traversal.shape, state⟩, asking, ⟨fit, stands.delivers.congr alike⟩, ?_, ?_⟩
  · rw [asking, hasNext]
    exact congrArg _ again
  · exact congrArg (fun result => (result.1, (⟨traversal.shape, result.2⟩ : Traversal))) alike

/-- A reading takes the head of what lies ahead. -/
theorem Stands.read (stands : traversal.Stands ids) :
    ∃ after, traversal.next = (.ok ids.head?, after) ∧ after.Stands ids.tail := by
  obtain ⟨fit, delivers⟩ := stands
  have steady := traversal.shape.steady
  cases delivers with
  | @ended _ after step =>
      refine ⟨⟨traversal.shape, after⟩, ?_, steady.read fit step, ?_⟩
      · exact congrArg traversal.answer step
      · exact .ended (steady.final fit step).1
  | @yielded _ after id rest step delivers =>
      refine ⟨⟨traversal.shape, after⟩, ?_, steady.read fit step, delivers⟩
      exact congrArg traversal.answer step

/-- Along a run the replies follow the identities that lie ahead. -/
theorem Stands.forth (stands : traversal.Stands ids) (calls : List Forward) :
    (traversal.forth calls).1 = Forward.replies calls ids ∧
      ∃ rest, (traversal.forth calls).2.Stands rest := by
  induction calls generalizing traversal ids with
  | nil => exact ⟨rfl, ids, stands⟩
  | cons call rest inductionHypothesis =>
      cases call with
      | hasNext =>
          obtain ⟨asked, step, standsAsked, _⟩ := stands.ask
          obtain ⟨replies, further⟩ := inductionHypothesis standsAsked
          rw [forth_hasNext step, Forward.replies, replies]
          exact ⟨rfl, further⟩
      | next =>
          obtain ⟨after, step, standsAfter⟩ := stands.read
          obtain ⟨replies, further⟩ := inductionHypothesis standsAfter
          rw [forth_next step, Forward.replies, replies]
          exact ⟨rfl, further⟩

/-! ## The end -/

/-- A traversal that was read to its end: reading leaves it as it is. -/
structure Spent (traversal : Traversal) : Prop where
  stands : traversal.Stands []
  still : traversal.next = (.ok none, traversal)
  resting : traversal.hasNext.2.cursors = traversal.cursors

theorem Stands.spent (stands : traversal.Stands ids) {after : Traversal}
    (ended : traversal.next = (.ok none, after)) : after.Spent := by
  obtain ⟨other, step, standsAfter⟩ := stands.read
  rw [ended] at step
  obtain ⟨nothing, rfl⟩ := Prod.mk.inj step
  have none : ids = [] := List.head?_eq_none_iff.1 (Except.ok.inj nothing).symm
  subst none
  rcases reading : traversal.shape.reader.next traversal.state with ⟨found, state⟩
  rw [next, reading] at ended
  cases ended
  obtain ⟨still, resting⟩ := traversal.shape.steady.final stands.fit reading
  exact ⟨standsAfter, congrArg (answer ⟨traversal.shape, state⟩) still, resting⟩

/-- Behind the end a run goes back and forth between two states, asked or not. -/
theorem Spent.forth {spent now : Traversal} (isSpent : spent.Spent)
    (either : now = spent ∨ now = spent.hasNext.2) (calls : List Forward) :
    (now.forth calls).1 = calls.map Forward.silence ∧
      ((now.forth calls).2 = spent ∨ (now.forth calls).2 = spent.hasNext.2) := by
  obtain ⟨asked, step, _, again, alike⟩ := isSpent.stands.ask
  have asking : now.hasNext = (.ok false, asked) := by
    rcases either with rfl | rfl
    · exact step
    · rw [step, again]
      exact step
  have reading : now.next = (.ok none, spent) := by
    rcases either with rfl | rfl
    · exact isSpent.still
    · rw [step, alike]
      exact isSpent.still
  induction calls generalizing now with
  | nil => exact ⟨rfl, either⟩
  | cons call rest inductionHypothesis =>
      cases call with
      | hasNext =>
          have behind : asked = spent.hasNext.2 := by rw [step]
          obtain ⟨replies, further⟩ := inductionHypothesis (.inr behind)
            (by rw [again, step]; rfl) (by rw [alike, isSpent.still])
          rw [forth_hasNext asking, replies]
          exact ⟨rfl, further⟩
      | next =>
          obtain ⟨replies, further⟩ := inductionHypothesis (.inl rfl) step isSpent.still
          rw [forth_next reading, replies]
          exact ⟨rfl, further⟩

/-! ## Protocol -/

/--
What a traversal promises to those who ask and read it in any order, without any error: the calls
that read are replied as if nothing else had been called, a question tells whether the next reading
yields, asking again changes nothing, and the end is final and moves no cursor any more.
-/
structure Orderly (traversal : Traversal) : Prop where
  readings : ∀ calls, Forward.readings calls (traversal.forth calls).1 =
    (traversal.forth (List.replicate (calls.count .next) .next)).1
  asked : ∀ calls, ∃ found after,
    (traversal.forth calls).2.next = (.ok found, after) ∧
      (traversal.forth calls).2.hasNext.1 = .ok found.isSome ∧
      (traversal.forth calls).2.hasNext.2.next = (.ok found, after)
  again : ∀ calls, (traversal.forth calls).2.hasNext.2.hasNext = (traversal.forth calls).2.hasNext
  ended : ∀ calls after, (traversal.forth calls).2.next = (.ok none, after) →
    ∀ further, (after.forth further).1 = further.map Forward.silence ∧
      (after.forth further).2.cursors = after.cursors

theorem Stands.orderly (stands : traversal.Stands ids) : traversal.Orderly where
  readings calls := by
    rw [(stands.forth calls).1, (stands.forth _).1]
    exact Forward.readings_replies calls ids
  asked calls := by
    obtain ⟨_, rest, standsNow⟩ := stands.forth calls
    obtain ⟨asked, step, _, _, alike⟩ := standsNow.ask
    obtain ⟨after, reading, _⟩ := standsNow.read
    refine ⟨rest.head?, after, reading, ?_, ?_⟩
    · rw [step]
      cases rest <;> rfl
    · rw [step]
      exact alike.trans reading
  again calls := by
    obtain ⟨_, rest, standsNow⟩ := stands.forth calls
    obtain ⟨asked, step, _, again, _⟩ := standsNow.ask
    rw [step]
    exact again.trans step
  ended calls after ended further := by
    obtain ⟨_, rest, standsNow⟩ := stands.forth calls
    have isSpent := standsNow.spent ended
    obtain ⟨silent, either⟩ := isSpent.forth (.inl rfl) further
    constructor
    · exact silent
    · rcases either with same | same
      · rw [same]
      · rw [same, isSpent.resting]

/-! ## Fresh traversals -/

/-- A traversal of the members of some set. -/
def Fresh (traversal : Traversal) : Prop := ∃ set : IdSet, traversal.Stands set.ids

theorem fresh_empty : empty.Fresh := ⟨.empty, trivial, delivers_empty⟩

theorem fresh_ofSet (set : IdSet) : (ofSet set).Fresh :=
  ⟨set, SetWalk.fit_ofSet set, delivers_ofSet set⟩

theorem Fresh.union {left right : Traversal} (leftFresh : left.Fresh) (rightFresh : right.Fresh) :
    (left.union right).Fresh := by
  obtain ⟨leftSet, leftStands⟩ := leftFresh
  obtain ⟨rightSet, rightStands⟩ := rightFresh
  exact ⟨leftSet.union rightSet, Pair.fit_of_pending_eq_none rfl,
    delivers_union leftStands.delivers rightStands.delivers⟩

theorem Fresh.intersection {left right : Traversal} (leftFresh : left.Fresh)
    (rightFresh : right.Fresh) : (left.intersection right).Fresh := by
  obtain ⟨leftSet, leftStands⟩ := leftFresh
  obtain ⟨rightSet, rightStands⟩ := rightFresh
  exact ⟨leftSet.inter rightSet, Pair.fit_of_pending_eq_none rfl,
    delivers_intersection leftStands.delivers rightStands.delivers⟩

end Traversal

/-! ## Queries -/

/-- What is asked of the cache: nothing. -/
def ResultCache.Any (_ : ResultCache) : Prop := True

namespace Transaction

variable {transaction : Transaction} {selection : Selection} {raw : Action Traversal}

theorem collect_of_fresh {traversal : Traversal} (fresh : traversal.Fresh) :
    (Action.collect traversal).Succeeds ResultCache.Any fun _ => True := by
  obtain ⟨set, stands⟩ := fresh
  exact (Action.Succeeds.collect stands.delivers).mono fun _ _ => trivial

theorem result_of_fresh (fresh : raw.Succeeds ResultCache.Any Traversal.Fresh) :
    (transaction.result selection raw).Succeeds ResultCache.Any fun _ => True := by
  have operating {α : Type} (operation : ResultCache → α × ResultCache × Journal) :
      (Action.onCache operation).Succeeds ResultCache.Any fun _ => True :=
    .onCache fun _ _ => ⟨trivial, trivial⟩
  have computing : (Action.getOrCompute selection.key transaction.view.version do
      Action.collect (← raw)).Succeeds ResultCache.Any fun _ => True := by
    refine (operating _).bind fun found _ => ?_
    cases found with
    | some result => exact .pure trivial
    | none =>
        refine (fresh.bind fun traversal isFresh => collect_of_fresh isFresh).bind fun ids _ => ?_
        exact (operating _).bind fun result _ => .pure trivial
  exact computing.bind fun _ _ => .pure trivial

theorem readView_of_any (result : CachedResult) :
    (Action.readView result).Succeeds ResultCache.Any fun _ => True :=
  (Action.Succeeds.readView fun _ _ => trivial).mono fun _ _ => trivial

theorem traversal_of_fresh (fresh : raw.Succeeds ResultCache.Any Traversal.Fresh) :
    (transaction.traversal selection raw).Succeeds ResultCache.Any Traversal.Fresh := by
  rw [Transaction.traversal]
  split
  · exact (result_of_fresh fresh).bind fun result _ => (readView_of_any result).bind
      fun shown _ => .pure (Traversal.fresh_ofSet shown)
  · exact fresh

theorem set_of_fresh (fresh : raw.Succeeds ResultCache.Any Traversal.Fresh) :
    (transaction.set selection raw).Succeeds ResultCache.Any fun _ => True := by
  rw [Transaction.set]
  split
  · exact (result_of_fresh fresh).bind fun result _ => readView_of_any result
  · refine fresh.bind fun traversal isFresh => ?_
    exact (collect_of_fresh isFresh).bind fun ids _ => .pure trivial

theorem raw_fresh (store : MemoryStore) (cached : Bool) (selection : Selection) :
    ((store.transaction cached).raw selection).Succeeds ResultCache.Any Traversal.Fresh := by
  induction selection with
  | ofType typeId =>
      refine (openIndex_succeeds _ _).bind ?_
      rintro entries rfl
      exact .pure ⟨store.idsOf typeId, trivial, Traversal.delivers_ofEntities store typeId⟩
  | withLink typeId linkId =>
      refine (openIndex_succeeds _ _).bind ?_
      rintro entries rfl
      exact .pure ⟨store.sourcesOf typeId linkId, trivial,
        Traversal.delivers_ofSources store typeId linkId⟩
  | linkedTo typeId linkId target inductionHypothesis =>
      refine (set_of_fresh inductionHypothesis).bind fun targets _ => ?_
      split
      · exact .pure Traversal.fresh_empty
      · refine (openIndex_succeeds _ _).bind ?_
        rintro entries rfl
        exact .pure ⟨store.sourcesInto typeId linkId targets, trivial,
          Traversal.delivers_ofJoin store typeId linkId targets⟩
  | union left right leftHypothesis rightHypothesis =>
      refine (traversal_of_fresh leftHypothesis).bind fun leftTraversal leftFresh => ?_
      refine (traversal_of_fresh rightHypothesis).orRetire.bind fun rightTraversal rightFresh => ?_
      exact .pure (leftFresh.union rightFresh)
  | inter left right leftHypothesis rightHypothesis =>
      refine (traversal_of_fresh leftHypothesis).bind fun leftTraversal leftFresh => ?_
      refine (traversal_of_fresh rightHypothesis).orRetire.bind fun rightTraversal rightFresh => ?_
      exact .pure (leftFresh.intersection rightFresh)

end Transaction

/--
Every query on a store in memory answers a traversal, whatever the cache holds, and the traversal
keeps its promises to those who ask and read it.
-/
theorem Query.traversal_orderly (store : MemoryStore) (cached : Bool) (query : Query)
    (engine : Engine) :
    ∃ traversal after,
      query.traverse (store.transaction cached) engine = (.ok traversal, after) ∧
        traversal.Orderly := by
  have fresh : (query.traverse (store.transaction cached)).Succeeds ResultCache.Any
      Traversal.Fresh := by
    cases query with
    | empty => exact .pure Traversal.fresh_empty
    | select selection =>
        exact Transaction.traversal_of_fresh (Transaction.raw_fresh store cached selection)
  obtain ⟨traversal, after, step, ⟨set, stands⟩, _⟩ := fresh engine trivial
  exact ⟨traversal, after, step, stands.orderly⟩

end EntityQuery
