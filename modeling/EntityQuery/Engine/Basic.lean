import EntityQuery.Cache.ResultCache
import EntityQuery.Reader.Traversal
import EntityQuery.Store.View

/-!
# The engine

Queries run as actions on an engine: the result cache, a ledger of what happened to the store, and a
journal.  An action that fails keeps everything that it did before.

The ledger lists every cursor that is not in use any more and the numbers of openings and of count
calls.  A traversal enters it when it is given up, on whatever path.
-/

namespace EntityQuery

/-- What happened to the store. -/
structure Ledger where
  /-- The final usage of the cursors that are not in use any more. -/
  retired : List Usage
  /-- How many times an index was tried to be opened. -/
  openings : Nat
  countCalls : Nat
deriving DecidableEq, Repr

/-- The state that queries act on. -/
structure Engine where
  cache : ResultCache
  ledger : Ledger
  journal : Journal

/-- An action on the engine that may fail. -/
abbrev Action (α : Type) := ExceptT QueryError (StateM Engine) α

namespace Action

variable {α : Type}

/-- An action that does nothing but answer or fail. -/
def ofExcept (result : Except QueryError α) : Action α :=
  fun engine => (result, engine)

def tell (journal : Journal) : Action Unit :=
  fun engine => (.ok (), { engine with journal := engine.journal ++ journal })

/-- Enter cursors that are not in use any more into the ledger. -/
def retire (cursors : List Usage) : Action Unit :=
  fun engine =>
    (.ok (),
      { engine with
        ledger := { engine.ledger with retired := engine.ledger.retired ++ cursors } })

/-- Enter an opening into the ledger and answer its number. -/
def enterOpening : Action Nat :=
  fun engine =>
    (.ok engine.ledger.openings,
      { engine with
        ledger := { engine.ledger with openings := engine.ledger.openings + 1 } })

def enterCount : Action Unit :=
  fun engine =>
    (.ok (),
      { engine with
        ledger := { engine.ledger with countCalls := engine.ledger.countCalls + 1 } })

def onCache (operation : ResultCache → α × ResultCache × Journal) : Action α :=
  fun engine =>
    let (answer, cache, journal) := operation engine.cache
    (.ok answer, { engine with cache, journal := engine.journal ++ journal })

def onCacheOnly (operation : ResultCache → ResultCache × Journal) : Action Unit :=
  onCache fun cache => ((), operation cache)

/--
Read the identities of a result from its view.  The first reading makes the view, and the cache
keeps it with the result.
-/
def readView (result : CachedResult) : Action IdSet :=
  fun engine =>
    let (view, shown) := result.toSet
    (.ok view, { engine with cache := engine.cache.replaceKept shown })

/-- Read a traversal to its end and give it up. -/
def collect (traversal : Traversal) : Action (List EntityId) := do
  let (result, cursors) := traversal.collect
  retire cursors
  ofExcept result

def orRetire (traversal : Traversal) (action : Action α) : Action α :=
  tryCatch action fun error => do
    retire traversal.retire
    throw error

/--
Find a valid result of a query, or compute one and publish it.  The answer tells whether the result
was computed; a computation that fails publishes nothing.
-/
def getOrCompute (key : QueryKey) (snapshot : Nat) (compute : Action (List EntityId)) :
    Action (Bool × CachedResult) := do
  match ← onCache fun cache => cache.lookup key snapshot with
  | some result => return (false, result)
  | none =>
      let ids ← compute
      let result ← onCache fun cache => cache.publish key snapshot ids
      return (true, result)

end Action

end EntityQuery
