import EntityQuery.Proofs.Engine.Succeeds
import EntityQuery.Proofs.Reader.Ownership

/-!
# Every cursor that a request opens is closed

The journal tells how many indexes were opened, and the ledger lists the cursors that are not in use
any more.  Opened cursors are either listed, and then closed once, or held by what the action
answers.  This balance is kept by each way to build an action: an action may be handed open cursors,
and whatever it was handed and whatever it opens, it closes or passes on.  An action that fails
passes nothing on.

Nothing is assumed of the store, the cache or the query: any index may refuse to open, and any move
of a cursor may fail or land on a record that cannot be decoded.
-/

namespace EntityQuery

/-! ## Counting -/

def Event.isScan : Event → Bool
  | .scan _ => true
  | _ => false

/-- The number of indexes that were opened. -/
def Journal.scans (journal : Journal) : Nat := journal.events.countP Event.isScan

@[simp]
theorem Journal.scans_append (first second : Journal) :
    (first ++ second).scans = first.scans + second.scans :=
  List.countP_append

namespace Engine

/--
Between two engines cursors were closed, each once.  Together with those that are held at the end
they make up those that were owed at the start and those that were opened since.
-/
def Balances (before : Engine) (owed : Nat) (after : Engine) (held : Nat) : Prop :=
  ∃ closed, after.ledger.retired = before.ledger.retired ++ closed ∧
    (∀ usage ∈ closed, usage.closings = 1) ∧
    owed + after.journal.scans = before.journal.scans + closed.length + held

variable {before middle after : Engine} {owed held kept : Nat}

theorem Balances.refl (engine : Engine) (owed : Nat) : engine.Balances owed engine owed :=
  ⟨[], (List.append_nil _).symm, nofun, by rw [List.length_nil]; omega⟩

theorem Balances.trans (first : before.Balances owed middle held)
    (second : middle.Balances held after kept) : before.Balances owed after kept := by
  obtain ⟨closed, retired, closedOnce, balance⟩ := first
  obtain ⟨more, retiredMore, moreOnce, balanceMore⟩ := second
  refine ⟨closed ++ more, ?_, ?_, ?_⟩
  · rw [retiredMore, retired, List.append_assoc]
  · intro usage member
    rcases List.mem_append.1 member with earlier | later
    · exact closedOnce usage earlier
    · exact moreOnce usage later
  · rw [List.length_append]
    omega

/-- Cursors that an action does not know of stay held. -/
theorem Balances.frame (balances : before.Balances owed after held) (others : Nat) :
    before.Balances (others + owed) after (others + held) := by
  obtain ⟨closed, retired, closedOnce, balance⟩ := balances
  exact ⟨closed, retired, closedOnce, by omega⟩

end Engine

/-! ## Actions -/

namespace Action

variable {α β : Type} {owed : Nat}

/--
An action closes or passes on the cursors that it is handed and those that it opens.  The predicate
tells how many its answer holds.
-/
def Settles (action : Action α) (owed : Nat) (holds : α → Nat → Prop) : Prop :=
  ∀ engine : Engine,
    match action engine with
    | (.ok value, after) => ∃ held, engine.Balances owed after held ∧ holds value held
    | (.error _, after) => engine.Balances owed after 0

/-- An answer that holds no cursor. -/
def nothingHeld (_ : α) (held : Nat) : Prop := held = 0

theorem orRetire_of_ok {traversal : Traversal} {action : Action α} {engine after : Engine}
    {value : α} (step : action engine = (.ok value, after)) :
    Action.orRetire traversal action engine = (.ok value, after) := by
  simp only [Action.orRetire, tryCatch, tryCatchThe, MonadExceptOf.tryCatch, ExceptT.tryCatch,
    ExceptT.mk, Bind.bind, StateT.bind, step]
  rfl

/-- An action that fails gives the traversal up. -/
theorem orRetire_of_error {traversal : Traversal} {action : Action α} {engine after : Engine}
    {error : QueryError} (step : action engine = (.error error, after)) :
    Action.orRetire traversal action engine =
      (.error error, (Action.retire traversal.retire after).2) := by
  simp only [Action.orRetire, tryCatch, tryCatchThe, MonadExceptOf.tryCatch, ExceptT.tryCatch,
    ExceptT.mk, Bind.bind, StateT.bind, step]
  rfl

namespace Settles

theorem pure {value : α} {holds : α → Nat → Prop} (holding : holds value owed) :
    Settles (Pure.pure value) owed holds :=
  fun engine => ⟨owed, .refl engine owed, holding⟩

theorem bind {action : Action α} {next : α → Action β} {middle : α → Nat → Prop}
    {holds : β → Nat → Prop} (first : action.Settles owed middle)
    (second : ∀ value held, middle value held → (next value).Settles held holds) :
    (action >>= next).Settles owed holds := by
  intro engine
  have settled := first engine
  rcases step : action engine with ⟨error | value, between⟩
  · rw [step] at settled
    rw [bind_of_error step]
    exact settled
  · rw [step] at settled
    obtain ⟨held, balances, holding⟩ := settled
    have settledMore := second value held holding between
    rw [bind_of_ok step]
    split
    · rename_i nextStep
      rw [nextStep] at settledMore
      obtain ⟨kept, balancesMore, holdingMore⟩ := settledMore
      exact ⟨kept, balances.trans balancesMore, holdingMore⟩
    · rename_i nextStep
      rw [nextStep] at settledMore
      exact balances.trans settledMore

theorem ofExcept (result : Except QueryError α) :
    (Action.ofExcept result).Settles 0 nothingHeld := by
  intro engine
  cases result with
  | error error => exact .refl engine 0
  | ok value => exact ⟨0, .refl engine 0, rfl⟩

/-- What is announced as opened is held from then on. -/
theorem tell (journal : Journal) :
    (Action.tell journal).Settles owed fun _ held => held = owed + journal.scans := by
  intro engine
  refine ⟨_, ⟨[], (List.append_nil _).symm, nofun, ?_⟩, rfl⟩
  show owed + (engine.journal ++ journal).scans = _
  rw [Journal.scans_append, List.length_nil]
  omega

/-- Cursors that were closed once are settled by entering them into the ledger. -/
theorem retire {cursors : List Usage} (closedOnce : cursors.map Usage.closings =
    List.replicate owed 1) : (Action.retire cursors).Settles owed nothingHeld := by
  intro engine
  have length : cursors.length = owed := by
    simpa using congrArg List.length closedOnce
  refine ⟨0, ⟨cursors, rfl, ?_, ?_⟩, rfl⟩
  · intro usage member
    have counted : usage.closings ∈ cursors.map Usage.closings := List.mem_map_of_mem member
    rw [closedOnce] at counted
    exact List.eq_of_mem_replicate counted
  · show owed + engine.journal.scans = engine.journal.scans + cursors.length + 0
    omega

/-- An action that neither opens a cursor nor gives one up hands on what it was handed. -/
theorem of_same {action : Action α} {answer : Engine → α} {after : Engine → Engine}
    (acts : ∀ engine, action engine = (.ok (answer engine), after engine))
    (retired : ∀ engine, (after engine).ledger.retired = engine.ledger.retired)
    (journal : ∀ engine, (after engine).journal = engine.journal) :
    action.Settles owed fun _ held => held = owed := by
  intro engine
  rw [acts]
  refine ⟨owed, ⟨[], ?_, nofun, ?_⟩, rfl⟩
  · rw [retired, List.append_nil]
  · rw [journal, List.length_nil]
    omega

theorem enterOpening : Action.enterOpening.Settles owed fun _ held => held = owed :=
  .of_same (fun _ => rfl) (fun _ => rfl) fun _ => rfl

theorem enterCount : Action.enterCount.Settles owed fun _ held => held = owed :=
  .of_same (fun _ => rfl) (fun _ => rfl) fun _ => rfl

/-- Reading a result from its view touches no cursor. -/
theorem readView (result : CachedResult) :
    (Action.readView result).Settles owed fun _ held => held = owed :=
  .of_same (fun _ => rfl) (fun _ => rfl) fun _ => rfl

/-- An operation of the cache opens no index. -/
theorem onCache {operation : ResultCache → α × ResultCache × Journal}
    (opensNothing : ∀ cache, (operation cache).2.2.scans = 0) :
    (Action.onCache operation).Settles owed fun _ held => held = owed := by
  intro engine
  refine ⟨owed, ⟨[], (List.append_nil _).symm, nofun, ?_⟩, rfl⟩
  show owed + (engine.journal ++ (operation engine.cache).2.2).scans = _
  rw [Journal.scans_append, opensNothing, List.length_nil]
  omega

/-- Beside an action that fails a traversal is given up; otherwise it stays held. -/
theorem orRetire {traversal : Traversal} {count : Nat} {action : Action α}
    {holds : α → Nat → Prop} (owns : traversal.Owns true count)
    (settles : action.Settles 0 holds) :
    (Action.orRetire traversal action).Settles count fun value held =>
      ∃ more, held = count + more ∧ holds value more := by
  intro engine
  have settled := settles engine
  rcases step : action engine with ⟨error | value, between⟩
  · rw [step] at settled
    rw [orRetire_of_error step]
    have framed := settled.frame count
    obtain ⟨held, balances, nothing⟩ := Settles.retire owns.retire between
    rw [show held = 0 from nothing] at balances
    exact framed.trans balances
  · rw [step] at settled
    obtain ⟨more, balances, holding⟩ := settled
    rw [orRetire_of_ok step]
    exact ⟨count + more, balances.frame count, more, rfl, holding⟩

/-- Reading a traversal to its end closes its cursors, whether the reading fails or not. -/
theorem collect {traversal : Traversal} {count : Nat} (owns : traversal.Owns true count) :
    (Action.collect traversal).Settles count nothingHeld := by
  refine (Settles.retire owns.drain.retire).bind fun _ held nothing => ?_
  rw [show held = 0 from nothing]
  exact ofExcept _

end Settles

end Action

/-! ## Requests -/

theorem ResultCache.scans_lookup (key : QueryKey) (snapshot : Nat) (cache : ResultCache) :
    (cache.lookup key snapshot).2.2.scans = 0 := by
  rw [lookup]
  split
  · dsimp only
    split
    · rfl
    · split <;> rfl
  · rfl

theorem ResultCache.scans_publish (key : QueryKey) (snapshot : Nat) (ids : List EntityId)
    (cache : ResultCache) : (cache.publish key snapshot ids).2.2.scans = 0 :=
  rfl

/-- The cursors that a traversal holds open. -/
def Traversal.Holds (traversal : Traversal) (held : Nat) : Prop := traversal.Owns true held

namespace Transaction

variable {transaction : Transaction} {selection : Selection} {raw : Action Traversal}

theorem openIndex_settles (index : Nat → Except QueryError (List Entry)) (kind : ScanKind) :
    (openIndex index kind).Settles 0 fun _ held => held = 1 := by
  refine Action.Settles.enterOpening.bind fun number held nothing => ?_
  rw [nothing]
  refine (Action.Settles.ofExcept (index number)).bind fun entries held nothing => ?_
  refine (Action.Settles.tell _).bind fun _ more opened => ?_
  rw [show held = 0 from nothing] at opened
  exact .pure opened

theorem result_settles (settles : raw.Settles 0 Traversal.Holds) :
    (transaction.result selection raw).Settles 0 Action.nothingHeld := by
  have looking : (Action.onCache fun cache =>
      cache.lookup selection.key transaction.view.version).Settles 0 fun _ held => held = 0 :=
    .onCache (ResultCache.scans_lookup selection.key transaction.view.version)
  have computing : (Action.getOrCompute selection.key transaction.view.version do
      Action.collect (← raw)).Settles 0 Action.nothingHeld := by
    refine looking.bind fun found held nothing => ?_
    subst nothing
    cases found with
    | some result => exact .pure rfl
    | none =>
        refine (settles.bind fun traversal held owns => .collect owns).bind
          fun ids held nothing => ?_
        rw [show held = 0 from nothing]
        have publishing : (Action.onCache fun cache =>
            cache.publish selection.key transaction.view.version ids).Settles 0
              fun _ held => held = 0 :=
          .onCache (ResultCache.scans_publish selection.key transaction.view.version ids)
        exact publishing.bind fun result held nothing => .pure nothing
  exact computing.bind fun answer held nothing => .pure nothing

theorem traversal_settles (settles : raw.Settles 0 Traversal.Holds) :
    (transaction.traversal selection raw).Settles 0 Traversal.Holds := by
  rw [Transaction.traversal]
  split
  · refine (result_settles settles).bind fun result held nothing => ?_
    rw [show held = 0 from nothing]
    refine (Action.Settles.readView result).bind fun shown held nothing => .pure ?_
    rw [nothing]
    exact Traversal.owns_ofSet shown
  · exact settles

theorem set_settles (settles : raw.Settles 0 Traversal.Holds) :
    (transaction.set selection raw).Settles 0 Action.nothingHeld := by
  rw [Transaction.set]
  split
  · refine (result_settles settles).bind fun result held nothing => ?_
    rw [show held = 0 from nothing]
    exact .readView result
  · refine settles.bind fun traversal held owns => ?_
    exact (Action.Settles.collect owns).bind fun ids held nothing => .pure nothing

/-- The left child is given up if the right one fails, and held beside it otherwise. -/
theorem both_settles {combine : Traversal → Traversal → Traversal} {left right : Action Traversal}
    (combines : ∀ {leftTraversal rightTraversal leftHeld rightHeld},
      leftTraversal.Owns true leftHeld → rightTraversal.Owns true rightHeld →
        (combine leftTraversal rightTraversal).Owns true (leftHeld + rightHeld))
    (leftSettles : left.Settles 0 Traversal.Holds)
    (rightSettles : right.Settles 0 Traversal.Holds) :
    (both combine left right).Settles 0 Traversal.Holds := by
  refine leftSettles.bind fun leftTraversal leftHeld leftOwns => ?_
  refine (rightSettles.orRetire leftOwns).bind fun rightTraversal held holding => ?_
  obtain ⟨rightHeld, rfl, rightOwns⟩ := holding
  exact .pure (combines leftOwns rightOwns)

/-- Opening a selection settles its cursors: it fails and holds none, or the traversal has them. -/
theorem raw_settles (transaction : Transaction) (selection : Selection) :
    (transaction.raw selection).Settles 0 Traversal.Holds := by
  induction selection with
  | ofType typeId =>
      refine (openIndex_settles _ _).bind fun entries held opened => .pure ?_
      rw [opened]
      exact Traversal.owns_ofEntities typeId entries
  | withLink typeId linkId =>
      refine (openIndex_settles _ _).bind fun entries held opened => .pure ?_
      rw [opened]
      exact Traversal.owns_ofSources typeId entries
  | linkedTo typeId linkId target inductionHypothesis =>
      refine (set_settles inductionHypothesis).bind fun targets held nothing => ?_
      rw [show held = 0 from nothing]
      split
      · exact .pure Traversal.owns_empty
      · refine (openIndex_settles _ _).bind fun entries held opened => .pure ?_
        rw [opened]
        exact Traversal.owns_ofJoin typeId entries targets
  | union left right leftHypothesis rightHypothesis =>
      exact both_settles .union (traversal_settles leftHypothesis)
        (traversal_settles rightHypothesis)
  | inter left right leftHypothesis rightHypothesis =>
      exact both_settles .intersection (traversal_settles leftHypothesis)
        (traversal_settles rightHypothesis)

end Transaction

namespace Query

variable (transaction : Transaction)

theorem traverse_settles (query : Query) :
    (query.traverse transaction).Settles 0 Traversal.Holds := by
  cases query with
  | empty => exact .pure Traversal.owns_empty
  | select selection =>
      exact Transaction.traversal_settles (transaction.raw_settles selection)

theorem materialize_settles (query : Query) :
    (query.materialize transaction).Settles 0 Action.nothingHeld :=
  (query.traverse_settles transaction).bind fun _ _ owns => .collect owns

theorem toSet_settles (query : Query) :
    (query.toSet transaction).Settles 0 Action.nothingHeld := by
  cases query with
  | empty => exact .pure rfl
  | select selection => exact Transaction.set_settles (transaction.raw_settles selection)

theorem kept_settles (selection : Selection) :
    (kept transaction selection).Settles 0 fun _ held => held = 0 := by
  rw [kept]
  split
  · exact .onCache (ResultCache.scans_lookup selection.key transaction.view.version)
  · exact .pure rfl

theorem storeCount_settles (typeId : TypeId) :
    (storeCount transaction typeId).Settles 0 Action.nothingHeld := by
  refine (Action.Settles.tell _).bind fun _ held announced => ?_
  rw [show held = 0 from announced]
  split
  · rename_i error _
    exact .ofExcept (.error error)
  · refine Action.Settles.enterCount.bind fun _ held nothing => ?_
    rw [nothing]
    exact .ofExcept _

/-- Asking a traversal once and giving it up closes its cursors, whatever it answers. -/
theorem probe_settles {traversal : Traversal} {count : Nat} (owns : traversal.Owns true count) :
    (probe traversal).Settles count Action.nothingHeld := by
  refine (Action.Settles.retire owns.hasNext.retire).bind fun _ held nothing => ?_
  rw [show held = 0 from nothing]
  exact .ofExcept _

theorem isEmpty_settles (query : Query) :
    (query.isEmpty transaction).Settles 0 Action.nothingHeld := by
  cases query with
  | empty => exact .pure rfl
  | select selection =>
      refine (kept_settles transaction selection).bind fun found held nothing => ?_
      subst nothing
      cases found with
      | some result => exact .pure rfl
      | none =>
          cases selection with
          | ofType typeId =>
              exact (storeCount_settles transaction typeId).bind fun _ _ nothing => .pure nothing
          | withLink | linkedTo | union | inter =>
              refine (transaction.raw_settles _).bind fun traversal held owns => ?_
              exact (probe_settles owns).bind fun _ _ nothing => .pure nothing

theorem count_settles (query : Query) :
    (query.count transaction).Settles 0 Action.nothingHeld := by
  cases query with
  | empty => exact .pure rfl
  | select selection =>
      cases selection with
      | ofType typeId =>
          refine (kept_settles transaction (.ofType typeId)).bind fun found held nothing => ?_
          subst nothing
          cases found with
          | some result => exact .pure rfl
          | none => exact storeCount_settles transaction typeId
      | withLink | linkedTo | union | inter =>
          simp only [count]
          split
          · exact (Transaction.result_settles (transaction.raw_settles _)).bind
              fun _ _ nothing => .pure nothing
          · refine (transaction.raw_settles _).bind fun traversal held owns => ?_
            exact (Action.Settles.collect owns).bind fun _ _ nothing => .pure nothing

end Query

theorem Action.Settles.closes {α : Type} {action : Action α}
    (settles : action.Settles 0 nothingHeld) (engine : Engine) :
    engine.Balances 0 (action engine).2 0 := by
  have settled := settles engine
  rcases step : action engine with ⟨error | value, after⟩
  · rwa [step] at settled
  · rw [step] at settled
    obtain ⟨held, balances, nothing⟩ := settled
    rwa [show held = 0 from nothing] at balances

/--
Every cursor that a request opens is closed once, whether the request answers or fails.  A traversal
that could not be opened has closed what was opened for it; one that is answered holds the rest, and
closes each of its cursors once, whenever it is disposed or given up.
-/
theorem Query.cursors_closed_once (transaction : Transaction) (query : Query) (engine : Engine) :
    engine.Balances 0 (query.materialize transaction engine).2 0 ∧
    engine.Balances 0 (query.toSet transaction engine).2 0 ∧
    engine.Balances 0 (query.count transaction engine).2 0 ∧
    engine.Balances 0 (query.isEmpty transaction engine).2 0 ∧
    match query.traverse transaction engine with
    | (.error _, after) => engine.Balances 0 after 0
    | (.ok traversal, after) =>
        ∃ opened, engine.Balances 0 after opened ∧ traversal.ClosesOnce opened := by
  refine ⟨(query.materialize_settles transaction).closes engine,
    (query.toSet_settles transaction).closes engine,
    (query.count_settles transaction).closes engine,
    (query.isEmpty_settles transaction).closes engine, ?_⟩
  have settled := query.traverse_settles transaction engine
  rcases step : query.traverse transaction engine with ⟨error | traversal, after⟩
  · rwa [step] at settled
  · rw [step] at settled
    obtain ⟨opened, balances, owns⟩ := settled
    exact ⟨opened, balances, owns.closesOnce⟩

/-- An index opens once and then refuses, and the cursor of the first opening is closed. -/
example (engine : Engine) (refusal : QueryError) (fresh : engine.ledger.openings = 0) :
    let view : StoreView :=
      { version := 0
        entities := fun number _ => if number = 0 then .ok [] else .error refusal
        links := fun _ _ _ => .error refusal
        count := fun _ => .refused refusal
        resolve := fun _ => .error refusal }
    (Query.select (.union (.ofType 1) (.ofType 1))).materialize ⟨view, false⟩ engine =
      (.error refusal,
        { engine with
          ledger := ⟨engine.ledger.retired ++ [⟨0, 1⟩], 2, engine.ledger.countCalls⟩
          journal := engine.journal ++ .event (.scan .entities) }) := by
  obtain ⟨cache, ⟨retired, openings, countCalls⟩, journal⟩ := engine
  subst fresh
  rfl

end EntityQuery
