import EntityQuery.Engine.Run
import EntityQuery.Proofs.Reader.Delivery

/-!
# Actions that succeed

An action succeeds under a condition on the result cache if it answers without an error from every
engine whose cache meets the condition, and leaves a cache that meets it again.  What it answers is
described by a predicate.

One rule for each way to build an action is enough to follow a query through the engine: the rules
speak of the cache alone, since the journal influences no answer, and the ledger only that of a
store that does not open an index every time.
-/

namespace EntityQuery

namespace Action

variable {α β : Type} {keeps : ResultCache → Prop}

/-- From every cache that is kept, the action answers as described and keeps the cache. -/
def Succeeds (keeps : ResultCache → Prop) (action : Action α) (answers : α → Prop) : Prop :=
  ∀ engine : Engine, keeps engine.cache →
    ∃ value after, action engine = (.ok value, after) ∧ answers value ∧ keeps after.cache

theorem bind_of_ok {action : Action α} {next : α → Action β} {engine after : Engine} {value : α}
    (step : action engine = (.ok value, after)) :
    (action >>= next) engine = next value after := by
  show (match action engine with | (result, middle) => ExceptT.bindCont next result middle) = _
  rw [step]
  rfl

theorem bind_of_error {action : Action α} {next : α → Action β} {engine after : Engine}
    {error : QueryError} (step : action engine = (.error error, after)) :
    (action >>= next) engine = (.error error, after) := by
  show (match action engine with | (result, middle) => ExceptT.bindCont next result middle) = _
  rw [step]
  rfl

/-- An operation of the cache depends on the cache alone. -/
theorem onCache_of_cache_eq {engine : Engine} {cache : ResultCache} (same : engine.cache = cache)
    (operation : ResultCache → α × ResultCache × Journal) :
    ∃ after : Engine, after.cache = (operation cache).2.1 ∧
      Action.onCache operation engine = (.ok (operation cache).1, after) := by
  subst same
  exact ⟨_, rfl, rfl⟩

namespace Succeeds

theorem mono {action : Action α} {answers weaker : α → Prop}
    (succeeds : action.Succeeds keeps answers) (implies : ∀ value, answers value → weaker value) :
    action.Succeeds keeps weaker := by
  intro engine kept
  obtain ⟨value, after, step, answered, keptAfter⟩ := succeeds engine kept
  exact ⟨value, after, step, implies value answered, keptAfter⟩

theorem pure {value : α} {answers : α → Prop} (answered : answers value) :
    Succeeds keeps (Pure.pure value) answers := by
  intro engine kept
  exact ⟨value, engine, rfl, answered, kept⟩

theorem bind {action : Action α} {next : α → Action β} {middle : α → Prop} {answers : β → Prop}
    (first : action.Succeeds keeps middle)
    (second : ∀ value, middle value → (next value).Succeeds keeps answers) :
    (action >>= next).Succeeds keeps answers := by
  intro engine kept
  obtain ⟨value, after, step, reached, keptAfter⟩ := first engine kept
  obtain ⟨answer, final, nextStep, answered, keptFinal⟩ := second value reached after keptAfter
  exact ⟨answer, final, (bind_of_ok step).trans nextStep, answered, keptFinal⟩

theorem ofExcept {value : α} {answers : α → Prop} (answered : answers value) :
    (Action.ofExcept (.ok value)).Succeeds keeps answers :=
  pure answered

theorem tell (journal : Journal) : (Action.tell journal).Succeeds keeps fun _ => True := by
  intro engine kept
  exact ⟨(), _, rfl, trivial, kept⟩

theorem retire (cursors : List Usage) : (Action.retire cursors).Succeeds keeps fun _ => True := by
  intro engine kept
  exact ⟨(), _, rfl, trivial, kept⟩

theorem enterOpening : Action.enterOpening.Succeeds keeps fun _ => True := by
  intro engine kept
  exact ⟨_, _, rfl, trivial, kept⟩

theorem enterCount : Action.enterCount.Succeeds keeps fun _ => True := by
  intro engine kept
  exact ⟨(), _, rfl, trivial, kept⟩

/-- Reading a result from its view answers the view, and the cache is kept with the view in it. -/
theorem readView {result : CachedResult}
    (keepsView : ∀ cache, keeps cache → keeps (cache.replaceKept result.toSet.2)) :
    (Action.readView result).Succeeds keeps (· = result.toSet.1) := by
  intro engine kept
  exact ⟨_, _, rfl, rfl, keepsView engine.cache kept⟩

theorem onCache {operation : ResultCache → α × ResultCache × Journal} {answers : α → Prop}
    (operates : ∀ cache, keeps cache →
      answers (operation cache).1 ∧ keeps (operation cache).2.1) :
    (Action.onCache operation).Succeeds keeps answers := by
  intro engine kept
  obtain ⟨answered, keptAfter⟩ := operates engine.cache kept
  exact ⟨_, _, rfl, answered, keptAfter⟩

/-- An action that succeeds never gives the traversal up. -/
theorem orRetire {traversal : Traversal} {action : Action α} {answers : α → Prop}
    (succeeds : action.Succeeds keeps answers) :
    (Action.orRetire traversal action).Succeeds keeps answers := by
  intro engine kept
  obtain ⟨value, after, step, answered, keptAfter⟩ := succeeds engine kept
  refine ⟨value, after, ?_, answered, keptAfter⟩
  simp only [Action.orRetire, tryCatch, tryCatchThe, MonadExceptOf.tryCatch, ExceptT.tryCatch,
    ExceptT.mk, Bind.bind, StateT.bind, step]
  rfl

theorem collect {traversal : Traversal} {ids : List EntityId}
    (delivers : traversal.Delivers ids) :
    (Action.collect traversal).Succeeds keeps (· = ids) := by
  rw [Action.collect]
  rcases step : traversal.collect with ⟨result, cursors⟩
  have collected : result = .ok ids := by
    rw [← Traversal.drain_of_delivers delivers]
    exact congrArg Prod.fst step.symm
  rw [collected]
  exact (retire cursors).bind fun _ _ => ofExcept rfl

end Succeeds

end Action

end EntityQuery
