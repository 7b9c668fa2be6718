import EntityQuery.Proofs.Engine.Closing
import EntityQuery.Proofs.Engine.Reading
import EntityQuery.Proofs.Reader.Release.Traversals

/-!
# Traversals of queries that were disposed

A query puts its traversal together from elementary ones, so whatever its transaction, a traversal
that it answers is one that was just opened.  On a store in memory it answers one.  What holds of a
disposed traversal therefore holds of every traversal that a query opens, scanned or served from the
cache.
-/

namespace EntityQuery

/-! ## Answers -/

namespace Action

variable {α β : Type}

/-- Whatever the action answers is as described. -/
def Answers (action : Action α) (answers : α → Prop) : Prop :=
  ∀ engine after value, action engine = (.ok value, after) → answers value

namespace Answers

theorem any (action : Action α) : action.Answers fun _ => True := fun _ _ _ _ => trivial

theorem pure {value : α} {answers : α → Prop} (answered : answers value) :
    Answers (Pure.pure value) answers := by
  rintro engine after other ⟨⟩
  exact answered

theorem bind {action : Action α} {next : α → Action β} {middle : α → Prop} {answers : β → Prop}
    (first : action.Answers middle)
    (second : ∀ value, middle value → (next value).Answers answers) :
    (action >>= next).Answers answers := by
  intro engine final value answered
  rcases step : action engine with ⟨error | found, reached⟩
  · rw [bind_of_error step] at answered
    cases answered
  · rw [bind_of_ok step] at answered
    exact second found (first _ _ _ step) _ _ _ answered

/-- Giving a traversal up does not answer. -/
theorem orRetire {traversal : Traversal} {action : Action α} {answers : α → Prop}
    (first : action.Answers answers) : (Action.orRetire traversal action).Answers answers := by
  intro engine final value answered
  rcases step : action engine with ⟨error | found, reached⟩
  · rw [orRetire_of_error step] at answered
    cases answered
  · rw [orRetire_of_ok step] at answered
    cases answered
    exact first _ _ _ step

end Answers

end Action

/-! ## Queries -/

namespace Transaction

variable {transaction : Transaction} {selection : Selection} {raw : Action Traversal}

theorem traversal_opened (opened : raw.Answers Traversal.Opened) :
    (transaction.traversal selection raw).Answers Traversal.Opened := by
  rw [Transaction.traversal]
  split
  · exact (Action.Answers.any _).bind fun result _ => (Action.Answers.any _).bind
      fun shown _ => .pure (Traversal.opened_ofSet shown)
  · exact opened

theorem raw_opened (transaction : Transaction) (selection : Selection) :
    (transaction.raw selection).Answers Traversal.Opened := by
  have opening (entries : Action (List Entry)) : entries.Answers fun _ => True := .any entries
  induction selection with
  | ofType typeId =>
      exact (opening _).bind fun entries _ => .pure (Traversal.opened_ofEntities typeId entries)
  | withLink typeId linkId =>
      exact (opening _).bind fun entries _ => .pure (Traversal.opened_ofSources typeId entries)
  | linkedTo typeId linkId target _ =>
      refine (Action.Answers.any _).bind fun targets _ => ?_
      split
      · exact .pure Traversal.opened_empty
      · exact (opening _).bind fun entries _ =>
          .pure (Traversal.opened_ofJoin typeId entries targets)
  | union left right leftOpened rightOpened =>
      refine (traversal_opened leftOpened).bind fun leftTraversal leftAnswered => ?_
      refine (traversal_opened rightOpened).orRetire.bind fun rightTraversal rightAnswered => ?_
      exact .pure (leftAnswered.union rightAnswered)
  | inter left right leftOpened rightOpened =>
      refine (traversal_opened leftOpened).bind fun leftTraversal leftAnswered => ?_
      refine (traversal_opened rightOpened).orRetire.bind fun rightTraversal rightAnswered => ?_
      exact .pure (leftAnswered.intersection rightAnswered)

end Transaction

namespace Query

/-- A traversal that a query answers was just opened. -/
theorem traverse_opened (transaction : Transaction) (query : Query) :
    (query.traverse transaction).Answers Traversal.Opened := by
  cases query with
  | empty => exact .pure Traversal.opened_empty
  | select selection =>
      exact Transaction.traversal_opened (transaction.raw_opened selection)

/-- On a store in memory a query answers a traversal. -/
theorem traverse_answers (store : MemoryStore) (cached : Bool) (query : Query) (engine : Engine) :
    ∃ traversal after, query.traverse (store.transaction cached) engine = (.ok traversal, after) ∧
      traversal.Opened := by
  have fresh : (query.traverse (store.transaction cached)).Succeeds ResultCache.Any
      Traversal.Fresh := by
    cases query with
    | empty => exact .pure Traversal.fresh_empty
    | select selection =>
        exact Transaction.traversal_of_fresh (Transaction.raw_fresh store cached selection)
  obtain ⟨traversal, after, step, _, _⟩ := fresh engine trivial
  exact ⟨traversal, after, step, query.traverse_opened _ _ _ _ step⟩

/--
Every query on a store in memory answers a traversal, whatever the cache holds, and once that was
disposed no call to it yields an identity or moves a cursor.
-/
theorem traversal_withholds (store : MemoryStore) (cached : Bool) (query : Query)
    (engine : Engine) :
    ∃ traversal after, query.traverse (store.transaction cached) engine = (.ok traversal, after) ∧
      traversal.Withholds := by
  obtain ⟨traversal, after, step, opened⟩ := query.traverse_answers store cached engine
  exact ⟨traversal, after, step, opened.withholds⟩

/--
Every query on a store in memory answers a traversal, whatever the cache holds, and once that was
disposed it never claims that more is left, and reports a violation if it was cut short; except the
scan of a type that was told so last.
-/
theorem traversal_disclaims (store : MemoryStore) (cached : Bool) (query : Query)
    (engine : Engine) :
    ∃ traversal after, query.traverse (store.transaction cached) engine = (.ok traversal, after) ∧
      traversal.Disclaims := by
  obtain ⟨traversal, after, step, opened⟩ := query.traverse_answers store cached engine
  exact ⟨traversal, after, step, opened.disclaims⟩

/-- The scan of a type that was asked ahead claims behind its disposal that more is left. -/
theorem disposed_traversal_claims_more :
    ¬ ∀ (store : MemoryStore) (cached : Bool) (query : Query) (engine after : Engine)
      (traversal : Traversal),
      query.traverse (store.transaction cached) engine = (.ok traversal, after) →
        ∀ moves calls, ((traversal.disposedBehind moves).behind calls).hasNext.1 ≠ .ok true := by
  intro disclaims
  let store := MemoryStore.empty.addEntity ⟨1, 1⟩
  let engine : Engine := ⟨⟨.default, .ofCapacity 16, 0, 0⟩, ⟨[], 0, 0⟩, .empty⟩
  have step : (ofType 1).traverse (store.transaction false) engine =
      (.ok (.ofEntities 1 [MemoryStore.entityEntry ⟨1, 1⟩]),
        ⟨engine.cache, ⟨[], 1, 0⟩, .empty ++ .event (.scan .entities)⟩) := rfl
  exact disclaims store false (ofType 1) _ _ _ step [.hasNext] [] rfl

end Query

end EntityQuery
