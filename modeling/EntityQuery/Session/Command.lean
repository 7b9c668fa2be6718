import EntityQuery.Cache.ResultCall
import EntityQuery.Engine.Run
import EntityQuery.Metrics
import EntityQuery.Query.Expr
import EntityQuery.Store.Faults

/-!
# Commands of a session

A session works on one store and one result cache, step by step.  Query commands run in a
transaction, store commands between transactions.  Queries, traversals and cached results can be
given names and used by later commands; traversals end with their transaction.
-/

namespace EntityQuery

/-- A command that runs in a transaction. -/
inductive QueryCommand where
  | define (name : String) (query : QueryExpr)
  | inspect (query : QueryExpr)
  | findLinks (query target : QueryExpr) (linkName : String) (name : Option String)
  | materialize (query : QueryExpr)
  | count (query : QueryExpr)
  | isEmpty (query : QueryExpr)
  | toSet (query : QueryExpr) (probes : List EntityId)
  | openTraversal (query : QueryExpr) (name : String)
  | callTraversal (name : String) (call : ReaderCall)
  | callTraversalAll (name : String) (calls : List ReaderCall)
  | dropTraversal (name : String)
  | collectTraversal (name : String)
  | walkTraversal (name : String) (count : Nat)
  | lookup (key : KeyExpr) (version : Nat) (name : Option String)
  | getOrCompute (key : KeyExpr) (version : Nat) (outcome : Except QueryError (List EntityId))
      (name : Option String)
  /-- Call the cached result that is held under a name. -/
  | callHeld (name : String) (calls : List ResultCall)
  | notifyAdded (id : EntityId) (version : Nat)
  | notifyDeleted (id : EntityId) (version : Nat)
  | notifyLink (typeId : TypeId) (linkId : LinkId) (version : Nat)
  | invalidate (key : KeyExpr)
  | invalidateAll
  | reclaim (wanted : Nat)
  | statistics
  | storeAccesses
  | metrics (windowStart : Option Nat)
  | resetMetrics
  | debugTexts

/-- A command of a transaction: a query command, or commands whose events are captured. -/
inductive TransactionCommand where
  | query (command : QueryCommand)
  | captured (commands : List TransactionCommand)

/-- A command that changes the store or replaces the cache. -/
inductive StoreCommand where
  | setVersion (version : Nat)
  | addEntity (id : EntityId)
  | removeEntity (id : EntityId)
  | addLink (source : EntityId) (name : String) (target : EntityId)
  | linkNumber (name : String)
  | refuseAccess (refusing : Bool)
  | replaceEntities (fault : EntityIndexFault)
  | replaceLinks (fault : LinkIndexFault)
  | clearReplacements
  | failResolving (error : Option QueryError)
  /-- Start with an empty cache, unless its configuration could not be read. -/
  | replaceCache (config : Option CacheConfig)

inductive Command where
  | store (command : StoreCommand)
  /-- Commands in one transaction, perhaps at a version other than the store's. -/
  | transaction (version : Option Nat) (cached : Bool) (commands : List TransactionCommand)
  | captured (commands : List Command)
  /-- A query command in a transaction of its own. -/
  | query (cached : Bool) (command : QueryCommand)

/-- The occupancy and the effect of the result cache. -/
structure CacheStatistics where
  partitions : Nat
  resident : Nat
  chunkSize : Nat
  entries : Nat
  attempts : Nat
  hits : Nat
  hitRate : Float
  latestVersion : Nat

/-- How a transaction and the cache show themselves to diagnostics. -/
structure DebugTexts where
  transaction : String
  cache : String
  version : Nat
  cached : Bool
  cacheSize : Nat

inductive Answer where
  | nothing
  | flag (value : Bool)
  | number (value : Nat)
  | identities (ids : List EntityId)
  /-- A set, and whether each probe is a member. -/
  | members (ids : List EntityId) (probes : List Bool)
  | query (query : Query)
  | reply (reply : ReaderReply)
  | replies (replies : List (Except QueryError ReaderReply))
  | walked (found : List (Option (Except QueryError EntityId)))
  | found (result : Option CachedResult)
  | computed (ran : Bool) (result : CachedResult)
  | resultReplies (replies : Option (List ResultReply))
  | statistics (statistics : CacheStatistics)
  /-- The cursors that are open, and all accesses to indexes so far. -/
  | storeAccesses (openCursors accesses : Nat)
  | metrics (counters : Option Metrics) (summaries : List KindSummary)
  | debugTexts (texts : DebugTexts)
  | refused (error : QueryError)
  | unreadable

/-- What happened to the store so far: cursors opened and closed, moves, and count calls. -/
structure StoreUse where
  opened : Nat
  closed : Nat
  steps : Nat
  countCalls : Nat
deriving DecidableEq, Repr

/-- The report of one step of a session. -/
inductive Step where
  | answered (answer : Except QueryError Answer) (use : StoreUse) (journal : Journal)
  | transaction (steps : List Step) (use : StoreUse)
  | captured (steps : List Step) (events : List Event)

end EntityQuery
