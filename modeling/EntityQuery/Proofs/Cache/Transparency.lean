import EntityQuery.Proofs.Engine.Uncached

/-!
# Transparency of the result cache

A run starts from a store and an empty cache.  Its steps change the store, notify the cache of the
changes in their order, drop results, and run queries once every change was notified.  In every state
of a run in which nothing waits to be notified, a query answers through the cache what it answers
without it.

The invariant relates the kept results to the store as it was before the changes that still wait.  A
notification takes the first of these changes into both sides, so one lemma about one notification
carries the induction over the run.
-/

namespace EntityQuery

/-! ## Requests -/

/-- What a query can be asked for. -/
inductive Request where
  | materialize
  | toSet
  | count
  | isEmpty
  /-- A traversal that is read to its end. -/
  | drain
deriving DecidableEq, Repr

/-- The answer of a request. -/
inductive Reply where
  | ids (ids : List EntityId)
  | set (set : IdSet)
  | number (value : Nat)
  | flag (value : Bool)
deriving DecidableEq

namespace Request

/-- Ask a query. -/
def run (transaction : Transaction) (query : Query) : Request → Action Reply
  | .materialize => return .ids (← query.materialize transaction)
  | .toSet => return .set (← query.toSet transaction)
  | .count => return .number (← query.count transaction)
  | .isEmpty => return .flag (← query.isEmpty transaction)
  | .drain => do
      let traversal ← query.traverse transaction
      return .ids (← Action.ofExcept traversal.drain.1)

/-- The reply to a request whose query has the given answer. -/
def reply (answer : IdSet) : Request → Reply
  | .materialize | .drain => .ids answer.ids
  | .toSet => .set answer
  | .count => .number answer.size
  | .isEmpty => .flag answer.isEmpty

theorem run_succeeds (store : MemoryStore) (cached : Bool) (query : Query) (request : Request) :
    (request.run (store.transaction cached) query).Succeeds (store.Keeps cached)
      (· = request.reply (query.answer store)) := by
  cases request with
  | materialize =>
      refine (query.materialize_succeeds store cached).bind ?_
      rintro ids rfl
      exact .pure rfl
  | toSet =>
      refine (query.toSet_succeeds store cached).bind ?_
      rintro set rfl
      exact .pure rfl
  | count =>
      refine (query.count_succeeds store cached).bind ?_
      rintro size rfl
      exact .pure rfl
  | isEmpty =>
      refine (query.isEmpty_succeeds store cached).bind ?_
      rintro flag rfl
      exact .pure rfl
  | drain =>
      refine (query.traverse_succeeds store cached).bind fun traversal delivers => ?_
      rw [Traversal.drain_of_delivers delivers]
      refine (Action.Succeeds.ofExcept rfl).bind ?_
      rintro ids rfl
      exact .pure rfl

end Request

/-! ## Patched results -/

namespace Mutation.Leaves

variable {mutation : Mutation} {version : Nat} {key : QueryKey} {old result : CachedResult}

/-- A result that does not contain the change yet is left as the answer on the changed store. -/
theorem ids_eq {query : Query} {before after : MemoryStore}
    (leaves : mutation.Leaves version query.key old result) (leads : mutation.Leads before after)
    (valid : mutation.reaction query.key ≠ .invalidate) (unaware : old.computedAt < version)
    (ids : old.ids = query.answer before) : result.ids = query.answer after := by
  ext id
  rw [Query.mem_answer, Query.mem_members_of_leads leads valid]
  cases leaves with
  | untouched unpatched => rw [unpatched, ids, Query.mem_answer]
  | contained patches contained => omega
  | @merged changed appears patches later inOrder =>
      rw [patches, CachedResult.mem_setMember, ids, Query.mem_answer]

end Mutation.Leaves

/-! ## Faithful results -/

namespace ResultCache

variable {before after : MemoryStore} {version later : Nat} {cache : ResultCache}

theorem Faithful.congr (faithful : cache.Faithful before version)
    (same : after.SameContent before) : cache.Faithful after version := by
  refine faithful.mono fun key result kept =>
    ⟨?_, kept.own, kept.coherent, kept.computed, kept.current⟩
  obtain ⟨query, sameKey, ids⟩ := kept.query
  refine ⟨query, sameKey, ids.trans ?_⟩
  exact Query.answer_eq_of_members_eq
    (Query.members_congr_store (same.sameIndexes query.key)).symm

/-- A notification at a new version takes faithful results from one store to the next. -/
theorem Faithful.notify {mutation : Mutation} (faithful : cache.Faithful before version)
    (leads : mutation.Leads before after) (newer : version < later) :
    (mutation.notify cache later).1.Faithful after later := by
  intro key result member
  obtain ⟨old, present, valid, leaves⟩ := Mutation.mem_of_mem_notify member
  obtain ⟨⟨query, rfl, ids⟩, own, coherent, computed, current⟩ := faithful key old present
  -- No result was computed at a version that is only now notified.
  have unaware : old.computedAt < later := by omega
  refine ⟨⟨query, rfl, leaves.ids_eq leads valid unaware ids⟩, leaves.key_eq.trans own,
    leaves.coherent coherent, ?_, ?_⟩
  · rw [leaves.computedAt_eq]
    exact Nat.le_trans computed leaves.version_ge
  · exact leaves.version_le (by omega)

end ResultCache

/-! ## Runs -/

/-- A store and an engine, and the changes of the store that were not notified yet. -/
structure CachedRun where
  store : MemoryStore
  engine : Engine
  /-- The changes that wait to be notified, oldest first. -/
  pending : List Mutation

namespace CachedRun

/-- The engine after an action, whatever it answered. -/
def perform {α : Type} (run : CachedRun) (action : Action α) : CachedRun :=
  { run with engine := (action run.engine).2 }

/-- Change the store; the change waits to be notified. -/
def change (run : CachedRun) (store : MemoryStore) (mutation : Mutation) : CachedRun :=
  { run with store, pending := run.pending ++ [mutation] }

/-- One step of a run. -/
inductive Step : CachedRun → CachedRun → Prop
  | added {run : CachedRun} {id : EntityId} :
      id ∉ run.store.entities → Step run (run.change (run.store.addEntity id) (.added id))
  | removed {run : CachedRun} (id : EntityId) :
      Step run (run.change (run.store.removeEntity id) (.removed id))
  | linked {run : CachedRun} {source : EntityId} (name : String) (target : EntityId) :
      source ∈ run.store.entities →
        Step run (run.change (run.store.addLink source name target).2
          (.relinked source.typeId (run.store.addLink source name target).1))
  /-- The oldest change is notified at a version above all before, which the store takes on. -/
  | notified {store : MemoryStore} {engine : Engine} {mutation : Mutation}
      {pending : List Mutation} {version : Nat} :
      store.version < version →
        Step ⟨store, engine, mutation :: pending⟩
          (CachedRun.perform ⟨store.setVersion version, engine, pending⟩
            (Action.onCacheOnly fun cache => mutation.notify cache version))
  | invalidated {run : CachedRun} (key : QueryKey) :
      Step run (run.perform (Action.onCache fun cache => cache.invalidate key))
  | cleared {run : CachedRun} :
      Step run (run.perform (Action.onCacheOnly ResultCache.invalidateAll))
  | reclaimed {run : CachedRun} (wanted : Nat) :
      Step run (run.perform (Action.onCache fun cache => cache.reclaimColdest wanted))
  /-- A query is run while no change waits. -/
  | asked {run : CachedRun} (query : Query) (request : Request) :
      run.pending = [] →
        Step run (run.perform (request.run (run.store.transaction true) query))

/-- The states of all runs from a store whose edges start at its entities, with an empty cache. -/
inductive Reachable : CachedRun → Prop
  | start {store : MemoryStore} {config : CacheConfig} {firstSerial : Nat} {cache : ResultCache}
      (ledger : Ledger) (journal : Journal) :
      store.SourcesStored → ResultCache.ofConfig config firstSerial = .ok cache →
        Reachable ⟨store, ⟨cache, ledger, journal⟩, []⟩
  | step {before after : CachedRun} : Reachable before → Step before after → Reachable after

/-- The kept results are answers on the store before the changes that wait. -/
structure Coherent (run : CachedRun) : Prop where
  stored : run.store.SourcesStored
  faithful : ∃ notified : MemoryStore, Mutation.Chain run.pending notified run.store ∧
    run.engine.cache.Faithful notified run.store.version

variable {run before after : CachedRun}

/-- Where no change waits, the kept results are answers on the store. -/
theorem Coherent.keeps (coherent : run.Coherent) (settled : run.pending = []) (cached : Bool) :
    run.store.Keeps cached run.engine.cache := by
  obtain ⟨notified, chain, faithful⟩ := coherent.faithful
  rw [settled] at chain
  cases chain with
  | settled same => exact fun _ => faithful.congr same

/-- An action that only forgets results keeps the invariant. -/
theorem Coherent.perform {α : Type} {action : Action α} (coherent : run.Coherent)
    (forgets : ∀ store version, run.engine.cache.Faithful store version →
      (action run.engine).2.cache.Faithful store version) : (run.perform action).Coherent := by
  obtain ⟨notified, chain, faithful⟩ := coherent.faithful
  exact ⟨coherent.stored, notified, chain, forgets notified run.store.version faithful⟩

theorem Coherent.change {mutation : Mutation} {store : MemoryStore} (coherent : run.Coherent)
    (leads : mutation.Leads run.store store) (sameVersion : store.version = run.store.version)
    (stored : store.SourcesStored) : (run.change store mutation).Coherent := by
  obtain ⟨notified, chain, faithful⟩ := coherent.faithful
  refine ⟨stored, notified, chain.append leads, ?_⟩
  show run.engine.cache.Faithful notified store.version
  rw [sameVersion]
  exact faithful

theorem coherent_step (coherent : before.Coherent) (step : Step before after) :
    after.Coherent := by
  cases step with
  | added missing =>
      exact coherent.change (.added (coherent.stored.absent missing) (.refl _)) rfl
        (coherent.stored.addEntity _)
  | removed id =>
      exact coherent.change (.removed (.refl _)) rfl (coherent.stored.removeEntity id)
  | linked name target present =>
      exact coherent.change (.relinked (MemoryStore.linksChanged_addLink _ _ name target))
        (MemoryStore.version_addLink _ _ name target)
        (coherent.stored.addLink name target present)
  | notified newer =>
      obtain ⟨notified, chain, faithful⟩ := coherent.faithful
      cases chain with
      | next leads rest =>
          refine ⟨coherent.stored, _, ?_, faithful.notify leads newer⟩
          exact rest.congr_right (MemoryStore.SameContent.setVersion _ _)
  | invalidated key => exact coherent.perform fun store version faithful => faithful.invalidate key
  | cleared =>
      exact coherent.perform fun store version _ => ResultCache.every_invalidateAll
  | reclaimed wanted =>
      exact coherent.perform fun store version faithful => faithful.reclaimColdest wanted
  | asked query request settled =>
      have keeps := coherent.keeps settled true
      obtain ⟨reply, after, step, _, keepsAfter⟩ :=
        request.run_succeeds before.store true query before.engine keeps
      refine ⟨coherent.stored, before.store, ?_, ?_⟩
      · show Mutation.Chain before.pending before.store before.store
        rw [settled]
        exact .settled (.refl _)
      · show ResultCache.Faithful before.store before.store.version
          (request.run (before.store.transaction true) query before.engine).2.cache
        rw [step]
        exact keepsAfter rfl

theorem coherent_of_reachable (reachable : Reachable run) : run.Coherent := by
  induction reachable with
  | @start store config firstSerial cache ledger journal stored accepted =>
      exact ⟨stored, store, .settled (.refl store), ResultCache.every_ofConfig accepted⟩
  | step _ step inductionHypothesis => exact coherent_step inductionHypothesis step

/--
In every state of a run in which no change waits to be notified, every request succeeds through the
cache with the reply that it has without the cache, from whatever engine that is run.
-/
theorem transparent (reachable : Reachable run) (settled : run.pending = []) (query : Query)
    (request : Request) :
    ∃ reply, (request.run (run.store.transaction true) query run.engine).1 = .ok reply ∧
      ∀ engine : Engine,
        (request.run (run.store.transaction false) query engine).1 = .ok reply := by
  have keeps := (coherent_of_reachable reachable).keeps settled true
  refine ⟨request.reply (query.answer run.store), ?_, ?_⟩
  · exact (request.run_succeeds run.store true query).answer_eq keeps
  · exact fun engine => (request.run_succeeds run.store false query).answer_eq nofun

/-- A result whose view was read before an entity was added is served with the entity afterwards. -/
theorem transparent_after_patch :
    ∃ viewed grown run, Reachable viewed ∧
      (((viewed.engine.cache.lookup (Query.ofType 1).key 1).1.bind CachedResult.view).map
        IdSet.ids) = some [⟨1, 1⟩] ∧
      Step viewed grown ∧ Step grown run ∧ run.pending = [] ∧
      ((run.engine.cache.lookup (Query.ofType 1).key 2).1.map fun result => result.ids.ids) =
        some [⟨1, 1⟩, ⟨1, 2⟩] ∧
      ∃ reply,
        (Request.materialize.run (run.store.transaction true) (.ofType 1) run.engine).1 =
          .ok reply ∧
        ∀ engine : Engine,
          (Request.materialize.run (run.store.transaction false) (.ofType 1) engine).1 =
            .ok reply := by
  let cache : ResultCache := ⟨.default, .ofCapacity CacheConfig.default.cacheSize, 0, 0⟩
  let started : CachedRun := ⟨.empty, ⟨cache, ⟨[], 0, 0⟩, .empty⟩, []⟩
  let grown (run : CachedRun) (id : EntityId) : CachedRun :=
    run.change (run.store.addEntity id) (.added id)
  let told (run : CachedRun) (id : EntityId) (version : Nat) : CachedRun :=
    CachedRun.perform ⟨(run.store.addEntity id).setVersion version, run.engine, []⟩
      (Action.onCacheOnly fun cache => (Mutation.added id).notify cache version)
  let viewed : CachedRun := (told started ⟨1, 1⟩ 1).perform
    (Request.materialize.run ((told started ⟨1, 1⟩ 1).store.transaction true) (.ofType 1))
  have accepted : ResultCache.ofConfig .default 0 = .ok cache := rfl
  have reachable : Reachable started := .start _ _ nofun accepted
  have reachesFirst : Reachable (told started ⟨1, 1⟩ 1) :=
    (reachable.step (.added (by decide))).step (.notified (by decide))
  have reachesViewed : Reachable viewed := reachesFirst.step (.asked _ _ rfl)
  have shown : (((viewed.engine.cache.lookup (Query.ofType 1).key 1).1.bind
      CachedResult.view).map IdSet.ids) = some [⟨1, 1⟩] := by
    decide +kernel
  have adds : Step viewed (grown viewed ⟨1, 2⟩) := .added (by decide)
  have notifies : Step (grown viewed ⟨1, 2⟩) (told viewed ⟨1, 2⟩ 2) := .notified (by decide)
  have served : ((told viewed ⟨1, 2⟩ 2).engine.cache.lookup (Query.ofType 1).key 2).1.map
      (fun result => result.ids.ids) = some [⟨1, 1⟩, ⟨1, 2⟩] := by
    decide +kernel
  exact ⟨viewed, _, _, reachesViewed, shown, adds, notifies, rfl, served,
    transparent ((reachesViewed.step adds).step notifies) rfl (.ofType 1) .materialize⟩

end CachedRun

end EntityQuery
