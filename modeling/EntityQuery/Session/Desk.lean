import EntityQuery.Session.Command

/-!
# The state of a session

The desk holds the store, the engine and everything that has a name.  A query command is an action
on it: it may fail with an error of the engine, which is the answer of its step, or because it uses a
name that stands for nothing, which ends the session.

A cached result that is held under a name is shared with the cache as long as it is kept there.
Results are told apart by their serial numbers: after every command the held results that are still
kept are brought up to date, and a change of a held result reaches the cache and all names that hold
it.
-/

namespace EntityQuery

structure Desk where
  store : FaultyStore
  engine : Engine
  queries : List (String × Query)
  traversals : List (String × Traversal)
  held : List (String × CachedResult)
  metrics : Metrics

abbrev DeskAction (α : Type) := ExceptT ExprError (StateM Desk) α

/-- Bind a name in a list of names, replacing its former value. -/
def bindName {α : Type} (name : String) (value : α) (names : List (String × α)) :
    List (String × α) :=
  (name, value) :: names.filter fun binding => binding.1 ≠ name

/-- Bind a name if one is given. -/
def bindName? {α : Type} (name : Option String) (value : α) (names : List (String × α)) :
    List (String × α) :=
  match name with
  | some name => bindName name value names
  | none => names

namespace Desk

/-- The cursors that are still in use. -/
def liveCursors (desk : Desk) : List Usage :=
  desk.traversals.flatMap fun binding => binding.2.cursors

/-- What happened to the store so far. -/
def use (desk : Desk) : StoreUse :=
  let cursors := desk.engine.ledger.retired ++ desk.liveCursors
  let total := Usage.sum cursors
  { opened := cursors.length
    closed := total.closings
    steps := total.steps
    countCalls := desk.engine.ledger.countCalls }

def retireAll (desk : Desk) : Desk :=
  let cursors := desk.traversals.flatMap fun binding => binding.2.retire
  let ledger := { desk.engine.ledger with retired := desk.engine.ledger.retired ++ cursors }
  { desk with engine := { desk.engine with ledger }, traversals := [] }

/-- Bring held results up to date with the cache. -/
def refreshHeld (desk : Desk) : Desk :=
  { desk with
    held := desk.held.map fun binding =>
      (binding.1,
        (desk.engine.cache.kept? binding.2.key binding.2.serial).getD binding.2) }

/-- Put a changed result in place of every copy of it. -/
def shareResult (desk : Desk) (result : CachedResult) : Desk :=
  { desk with
    engine := { desk.engine with cache := desk.engine.cache.replaceKept result }
    held := desk.held.map fun binding =>
      (binding.1, if binding.2.serial = result.serial then result else binding.2) }

def statistics (desk : Desk) : CacheStatistics :=
  let cache := desk.engine.cache
  { partitions := cache.results.count
    resident := cache.results.residentCount
    chunkSize := cache.results.chunkSize
    entries := cache.results.size
    attempts := cache.results.attempts
    hits := cache.results.hits
    hitRate := cache.results.hitRate
    latestVersion := cache.latestVersion }

/-- The diagnostic texts of a transaction and the cache. -/
def debugTexts (desk : Desk) (transaction : Transaction) : DebugTexts :=
  { transaction :=
      "QueryTxn \x7b snapshot_version: " ++ toString transaction.view.version ++ ", cached: "
        ++ toString transaction.cached ++ " \x7d"
    cache := desk.engine.cache.debugText
    version := transaction.view.version
    cached := transaction.cached
    cacheSize := desk.engine.cache.config.cacheSize }

end Desk

namespace DeskAction

variable {α : Type}

def onEngine (action : Action α) : DeskAction α :=
  fun desk =>
    let (result, engine) := action desk.engine
    (result.mapError .refused, { desk with engine })

/-- The value of an expression over the named queries. -/
def evaluate (value : (String → Option Query) → Except ExprError α) : DeskAction α :=
  fun desk => (value fun name => desk.queries.lookup name, desk)

def traversal (name : String) : DeskAction Traversal :=
  fun desk =>
    match desk.traversals.lookup name with
    | some traversal => (.ok traversal, desk)
    | none => (.error (.unknownName name), desk)

/-- Put a traversal under a name; the former one is not given up here. -/
def putTraversal (name : String) (traversal : Traversal) : DeskAction Unit :=
  fun desk => (.ok (), { desk with traversals := bindName name traversal desk.traversals })

/-- Take the traversal of a name away, if there is one. -/
def takeTraversal? (name : String) : DeskAction (Option Traversal) :=
  fun desk =>
    (.ok (desk.traversals.lookup name),
      { desk with traversals := desk.traversals.filter fun binding => binding.1 ≠ name })

def takeTraversal (name : String) : DeskAction Traversal := do
  match ← takeTraversal? name with
  | some traversal => return traversal
  | none => throw (.unknownName name)

/-- Give the traversal of a name up, if there is one. -/
def dropTraversal (name : String) : DeskAction Bool := do
  match ← takeTraversal? name with
  | some traversal =>
      onEngine (Action.retire traversal.retire)
      return true
  | none => return false

/-- Hold a result under a name, if one is given. -/
def hold (name : Option String) (result : CachedResult) : DeskAction Unit :=
  fun desk => (.ok (), { desk with held := bindName? name result desk.held })

/-- The number of results that the cache keeps. -/
def cacheEntries : DeskAction Nat :=
  fun desk => (.ok desk.engine.cache.results.size, desk)

/-- Carry a query command out. -/
def perform (transaction : Transaction) : QueryCommand → DeskAction Answer
  | .define name query => do
      let query ← evaluate query.eval
      modify fun desk => { desk with queries := bindName name query desk.queries }
      return .nothing
  | .inspect query => do
      return .query (← evaluate query.eval)
  | .findLinks query target linkName name => do
      let target ← evaluate target.eval
      let query ← evaluate query.eval
      let found ← onEngine (query.findLinks transaction target linkName)
      modify fun desk => { desk with queries := bindName? name found desk.queries }
      return .query found
  | .materialize query => do
      let query ← evaluate query.eval
      return .identities (← onEngine (query.materialize transaction))
  | .count query => do
      let query ← evaluate query.eval
      return .number (← onEngine (query.count transaction))
  | .isEmpty query => do
      let query ← evaluate query.eval
      return .flag (← onEngine (query.isEmpty transaction))
  | .toSet query probes => do
      let query ← evaluate query.eval
      let set ← onEngine (query.toSet transaction)
      return .members set.ids (probes.map set.contains)
  | .openTraversal query name => do
      let query ← evaluate query.eval
      let opened ← onEngine (query.traverse transaction)
      let _ ← dropTraversal name
      putTraversal name opened
      return .nothing
  | .callTraversal name call => do
      let (reply, after) := (← traversal name).call call
      putTraversal name after
      return .reply (← onEngine (Action.ofExcept reply))
  | .callTraversalAll name calls => do
      let (replies, after) := (← traversal name).callAll calls
      putTraversal name after
      return .replies replies
  | .dropTraversal name => do
      return .flag (← dropTraversal name)
  | .collectTraversal name => do
      let taken ← takeTraversal name
      return .identities (← onEngine (Action.collect taken))
  | .walkTraversal name count => do
      let (found, after) := (← takeTraversal name).walk count
      onEngine (Action.retire after.retire)
      return .walked found
  | .lookup key version name => do
      let key ← evaluate key.eval
      let found ← onEngine (Action.onCache fun cache => cache.lookup key version)
      match found with
      | some result => hold name result
      | none => pure ()
      return .found found
  | .getOrCompute key version outcome name => do
      let key ← evaluate key.eval
      let (ran, result) ←
        onEngine (Action.getOrCompute key version (Action.ofExcept outcome))
      hold name result
      return .computed ran result
  | .callHeld name calls => do
      match (← get).held.lookup name with
      | none => return .resultReplies none
      | some result =>
          let (replies, after) := result.callAll calls
          modify fun desk => desk.shareResult after
          return .resultReplies (some replies)
  | .notifyAdded id version => do
      onEngine (Action.onCacheOnly fun cache => cache.notifyAdded id version)
      return .number (← cacheEntries)
  | .notifyDeleted id version => do
      onEngine (Action.onCacheOnly fun cache => cache.notifyDeleted id version)
      return .number (← cacheEntries)
  | .notifyLink typeId linkId version => do
      onEngine (Action.onCacheOnly fun cache => cache.notifyLink typeId linkId version)
      return .number (← cacheEntries)
  | .invalidate key => do
      let key ← evaluate key.eval
      return .flag (← onEngine (Action.onCache fun cache => cache.invalidate key))
  | .invalidateAll => do
      onEngine (Action.onCacheOnly ResultCache.invalidateAll)
      return .nothing
  | .reclaim wanted => do
      return .number (← onEngine (Action.onCache fun cache => cache.reclaimColdest wanted))
  | .statistics => do
      return .statistics (← get).statistics
  | .storeAccesses => do
      let use := (← get).use
      return .storeAccesses (use.opened - use.closed) (use.opened + use.countCalls)
  | .metrics windowStart => do
      let counters := (← get).metrics.within windowStart
      return .metrics counters ((counters.map Metrics.summaries).getD [])
  | .resetMetrics => do
      modify fun desk => { desk with metrics := .zero desk.metrics.since }
      return .nothing
  | .debugTexts => do
      return .debugTexts ((← get).debugTexts transaction)

end DeskAction

end EntityQuery
