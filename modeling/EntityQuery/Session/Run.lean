import EntityQuery.Session.Desk

/-!
# Running a session

Commands run one after the other, each giving one step of the report.  The events of a query command
go to the nearest recorder: to the step itself where steps capture their events, else to the
innermost group of captured commands around it, else to the metrics.
-/

namespace EntityQuery

/-- Where the events of a query command go. -/
inductive Recorder where
  | step
  | group
  | metrics
deriving DecidableEq, Repr

namespace Recorder

/-- The recorder inside a group of captured commands. -/
def inGroup : Recorder → Recorder
  | .step => .step
  | .group | .metrics => .group

end Recorder

/-- What running commands gives: the steps, the events for the group around them, and the desk. -/
abbrev Progress := List Step × List Event × Desk

namespace Desk

def runQuery (recorder : Recorder) (transaction : Transaction) (command : QueryCommand)
    (desk : Desk) : Except ExprError (Step × List Event × Desk) :=
  let quiet := { desk with engine := { desk.engine with journal := .empty } }
  let (outcome, performed) := DeskAction.perform transaction command quiet
  let settled := performed.refreshHeld
  let journal := settled.engine.journal
  let report (answer : Except QueryError Answer) : Step × List Event × Desk :=
    match recorder with
    | .step => (.answered answer settled.use journal, [], settled)
    | .group => (.answered answer settled.use ⟨[], journal.notes⟩, journal.events, settled)
    | .metrics =>
        (.answered answer settled.use ⟨[], journal.notes⟩, [],
          { settled with metrics := settled.metrics.recordAll journal.events })
  match outcome with
  | .ok answer => .ok (report (.ok answer))
  | .error (.refused error) => .ok (report (.error error))
  | .error (.unknownName name) => .error (.unknownName name)

def runTransaction (transaction : Transaction) :
    Recorder → List TransactionCommand → Desk → Except ExprError Progress
  | _, [], desk => .ok ([], [], desk)
  | recorder, .query command :: rest, desk => do
      let (step, events, after) ← desk.runQuery recorder transaction command
      let (steps, moreEvents, final) ← runTransaction transaction recorder rest after
      return (step :: steps, events ++ moreEvents, final)
  | recorder, .captured commands :: rest, desk => do
      let (inner, captured, after) ← runTransaction transaction recorder.inGroup commands desk
      let (steps, events, final) ← runTransaction transaction recorder rest after
      return (.captured inner captured :: steps, events, final)

def runStore (desk : Desk) (command : StoreCommand) : Answer × Desk :=
  let withMemory (memory : MemoryStore) : Desk :=
    { desk with store := { desk.store with memory } }
  let memory := desk.store.memory
  match command with
  | .setVersion version => (.nothing, withMemory (memory.setVersion version))
  | .addEntity id => (.nothing, withMemory (memory.addEntity id))
  | .removeEntity id => (.nothing, withMemory (memory.removeEntity id))
  | .addLink source name target =>
      let (number, added) := memory.addLink source name target
      (.number number.toNat, withMemory added)
  | .linkNumber name =>
      let (number, numbered) := memory.linkNumber name
      (.number number.toNat, withMemory numbered)
  | .refuseAccess refusing => (.nothing, { desk with store := { desk.store with refusing } })
  | .replaceEntities fault =>
      (.nothing,
        { desk with
          store := { desk.store with entityFaults := fault :: desk.store.entityFaults } })
  | .replaceLinks fault =>
      (.nothing,
        { desk with store := { desk.store with linkFaults := fault :: desk.store.linkFaults } })
  | .clearReplacements => (.nothing, { desk with store := desk.store.clearIndexes })
  | .failResolving resolveError =>
      (.nothing, { desk with store := { desk.store with resolveError } })
  | .replaceCache none => (.unreadable, desk)
  | .replaceCache (some config) =>
      match ResultCache.ofConfig config desk.engine.cache.nextSerial with
      | .ok cache => (.nothing, { desk with engine := { desk.engine with cache } })
      | .error error => (.refused error, desk)

/-- The transaction of a store at a version, by default the store's own. -/
def transactionAt (desk : Desk) (version : Option Nat) (cached : Bool) : Transaction :=
  ⟨desk.store.view (version.getD desk.store.memory.version), cached⟩

def run : Recorder → List Command → Desk → Except ExprError Progress
  | _, [], desk => .ok ([], [], desk)
  | recorder, .store command :: rest, desk => do
      let (answer, after) := desk.runStore command
      let (steps, events, final) ← run recorder rest after
      return (.answered (.ok answer) after.use .empty :: steps, events, final)
  | recorder, .query cached command :: rest, desk => do
      let (step, events, after) ←
        desk.runQuery recorder (desk.transactionAt none cached) command
      let (steps, moreEvents, final) ← run recorder rest after.retireAll
      return (step :: steps, events ++ moreEvents, final)
  | recorder, .transaction version cached commands :: rest, desk => do
      let (inner, events, performed) ←
        runTransaction (desk.transactionAt version cached) recorder commands desk
      let after := performed.retireAll
      let (steps, moreEvents, final) ← run recorder rest after
      return (.transaction inner after.use :: steps, events ++ moreEvents, final)
  | recorder, .captured commands :: rest, desk => do
      let (inner, captured, after) ← run recorder.inGroup commands desk
      let (steps, events, final) ← run recorder rest after
      return (.captured inner captured :: steps, events, final)

end Desk

/-- What a session starts from. -/
structure SessionStart where
  memory : MemoryStore
  config : CacheConfig
  /-- Whether every step captures the events of its own. -/
  capture : Bool

namespace SessionStart

/-- The desk at the start, unless the configuration is refused. -/
def desk (start : SessionStart) : Except QueryError Desk := do
  let cache ← ResultCache.ofConfig start.config 0
  return {
    store := .ofMemory start.memory
    engine := ⟨cache, ⟨[], 0, 0⟩, .empty⟩
    queries := []
    traversals := []
    held := []
    metrics := .zero 0 }

def run (start : SessionStart) (commands : List Command) : Except ExprError (List Step) :=
  match start.desk with
  | .error error => .error (.refused error)
  | .ok desk => do
      let (steps, _, _) ← desk.run (if start.capture then .step else .metrics) commands
      return steps

end SessionStart

end EntityQuery
