import Mathlib.Logic.Relation
import EntityQuery.Proofs.Cache.Finding
import EntityQuery.Proofs.Cache.Transparency

/-!
# Residency of patched results

A cache that forgets everything is transparent too.  What makes a cached result worth keeping is
that changes of entities do not cost it: if a result was published, and entities are added and
removed in the order of their versions from then on, then the result stays in the cache and is
patched to be the answer on the changed store.  Every request is served from it, by one look-up that
hits, and no access to the store is made.

The transaction of such a request may therefore show anything of the store but its version, for
instance an error wherever it is asked.  That the key of a query that may be cached never
invalidates is by induction on the query.
-/

namespace EntityQuery

/-! ## Reactions that keep a result -/

namespace Reaction

theorem ofAny_ne_invalidate {found : Reaction} {operands : List Reaction}
    (valid : found ≠ .invalidate) (operandsValid : .invalidate ∉ operands) :
    ofAny found operands ≠ .invalidate := by
  rw [ofAny, if_neg (by simpa using operandsValid)]
  split
  · exact valid
  · exact Reaction.noConfusion

theorem ofAllInserting_ne_invalidate {operands : List Reaction}
    (operandsValid : .invalidate ∉ operands) : ofAllInserting operands ≠ .invalidate := by
  rw [ofAllInserting, if_neg (by simpa using operandsValid)]
  split <;> exact Reaction.noConfusion

end Reaction

namespace Selection

variable {selection : Selection}

/-- No entity that is added invalidates a result that may be cached. -/
theorem addedReaction_ne_invalidate (cacheable : selection.cacheable = true) (id : EntityId) :
    selection.key.addedReaction id ≠ .invalidate := by
  induction selection with
  | ofType typeId =>
      rw [addedReaction_ofType]
      split <;> exact Reaction.noConfusion
  | withLink typeId linkId =>
      rw [addedReaction_withLink]
      exact Reaction.noConfusion
  | linkedTo => cases cacheable
  | union left right leftHypothesis rightHypothesis =>
      obtain ⟨leftCacheable, rightCacheable⟩ := Bool.and_eq_true_iff.1 cacheable
      rw [addedReaction_union]
      refine Reaction.ofAny_ne_invalidate Reaction.noConfusion ?_
      simp [(leftHypothesis leftCacheable).symm, (rightHypothesis rightCacheable).symm]
  | inter left right leftHypothesis rightHypothesis =>
      obtain ⟨leftCacheable, rightCacheable⟩ := Bool.and_eq_true_iff.1 cacheable
      rw [addedReaction_inter]
      refine Reaction.ofAllInserting_ne_invalidate ?_
      simp [(leftHypothesis leftCacheable).symm, (rightHypothesis rightCacheable).symm]

/-- No entity that is removed invalidates a result that may be cached. -/
theorem deletedReaction_ne_invalidate (cacheable : selection.cacheable = true) (id : EntityId) :
    selection.key.deletedReaction id ≠ .invalidate := by
  induction selection with
  | ofType typeId =>
      rw [deletedReaction_ofType]
      split <;> exact Reaction.noConfusion
  | withLink typeId linkId =>
      rw [deletedReaction_withLink]
      split <;> exact Reaction.noConfusion
  | linkedTo => cases cacheable
  | union left right leftHypothesis rightHypothesis =>
      obtain ⟨leftCacheable, rightCacheable⟩ := Bool.and_eq_true_iff.1 cacheable
      rw [deletedReaction_union]
      refine Reaction.ofAny_ne_invalidate Reaction.noConfusion ?_
      simp [(leftHypothesis leftCacheable).symm, (rightHypothesis rightCacheable).symm]
  | inter left right leftHypothesis rightHypothesis =>
      obtain ⟨leftCacheable, rightCacheable⟩ := Bool.and_eq_true_iff.1 cacheable
      rw [deletedReaction_inter]
      refine Reaction.ofAny_ne_invalidate Reaction.noConfusion ?_
      simp [(leftHypothesis leftCacheable).symm, (rightHypothesis rightCacheable).symm]

end Selection

/-! ## Notifications -/

namespace ResultCache

variable {cache : ResultCache} {key : QueryKey} {old : CachedResult} {version : Nat}

/-- A result that has not merged anything newer reacts to an entity change by staying. -/
theorem react_ne_none {reaction : QueryKey → Reaction} (valid : reaction key ≠ .invalidate)
    (inOrder : old.version ≤ version) (id : EntityId) (tally : PatchTally) :
    (react reaction id version key old tally).1 ≠ none := by
  have patched (appears : Bool) : (patchOne id appears version old tally).1 ≠ none := by
    rw [patchOne, CachedResult.patch]
    by_cases contained : version ≤ old.computedAt
    · rw [if_pos contained]
      exact Option.some_ne_none _
    · rw [if_neg contained, if_neg (Nat.not_lt.2 inOrder)]
      exact Option.some_ne_none _
  rw [react]
  cases reacts : reaction key with
  | ignore => exact Option.some_ne_none _
  | insert => exact patched true
  | remove => exact patched false
  | invalidate => exact absurd reacts valid

theorem find?_notifyAdded {id : EntityId} (found : cache.results.find? key = some old)
    (valid : key.addedReaction id ≠ .invalidate) (inOrder : old.version ≤ version) :
    ∃ result, (cache.notifyAdded id version).1.results.find? key = some result ∧
      (Mutation.added id).Leaves version key old result := by
  obtain ⟨tally, result, visited, foundAfter⟩ := PartitionedCache.find?_revise found
    (react_ne_none valid inOrder id) ⟨0, 0, 0, 0⟩
  exact ⟨result, foundAfter, (Mutation.leaves_of_added visited).2⟩

theorem find?_notifyDeleted {id : EntityId} (found : cache.results.find? key = some old)
    (valid : key.deletedReaction id ≠ .invalidate) (inOrder : old.version ≤ version) :
    ∃ result, (cache.notifyDeleted id version).1.results.find? key = some result ∧
      (Mutation.removed id).Leaves version key old result := by
  obtain ⟨tally, result, visited, foundAfter⟩ := PartitionedCache.find?_revise found
    (react_ne_none valid inOrder id) ⟨0, 0, 0, 0⟩
  exact ⟨result, foundAfter, (Mutation.leaves_of_removed visited).2⟩

end ResultCache

/-! ## Requests that are served -/

/-- An action that does nothing but look a key up, with hits alone. -/
def Action.ServedBy {α : Type} (key : QueryKey) (snapshot : Nat) (ids : IdSet) (hits : Nat)
    (action : Action α) (answers : α → Prop) : Prop :=
  ∀ engine : Engine, engine.cache.Serves key snapshot ids →
    ∃ value after, action engine = (.ok value, after) ∧ answers value ∧
      after.cache.Serves key snapshot ids ∧ after.ledger = engine.ledger ∧
        after.journal = engine.journal ++ .ofEvents (.replicate hits (.lookup key.kind .hit))

namespace Action.ServedBy

variable {α β : Type} {key : QueryKey} {snapshot hits moreHits : Nat} {ids : IdSet}
  {action : Action α} {next : α → Action β} {middle : α → Prop} {answers : β → Prop}

theorem pure {value : β} (answered : answers value) :
    ServedBy key snapshot ids 0 (Pure.pure value) answers := by
  intro engine serves
  exact ⟨value, engine, rfl, answered, serves, rfl, engine.journal.append_ofEvents_nil.symm⟩

theorem bind (first : action.ServedBy key snapshot ids hits middle)
    (second : ∀ value, middle value → (next value).ServedBy key snapshot ids moreHits answers) :
    (action >>= next).ServedBy key snapshot ids (hits + moreHits) answers := by
  intro engine serves
  obtain ⟨value, after, step, reached, afterServes, afterLedger, afterJournal⟩ :=
    first engine serves
  obtain ⟨answer, final, nextStep, answered, finalServes, finalLedger, finalJournal⟩ :=
    second value reached after afterServes
  refine ⟨answer, final, (bind_of_ok step).trans nextStep, answered, finalServes,
    finalLedger.trans afterLedger, ?_⟩
  rw [finalJournal, afterJournal, Journal.append_ofEvents, List.replicate_append_replicate]

/-- What follows a served action looks nothing up. -/
theorem finish (first : action.ServedBy key snapshot ids hits middle)
    (second : ∀ value, middle value → (next value).ServedBy key snapshot ids 0 answers) :
    (action >>= next).ServedBy key snapshot ids hits answers :=
  first.bind second

theorem lookup : ServedBy key snapshot ids 1
    (Action.onCache fun cache => cache.lookup key snapshot)
      fun found => ∃ result, found = some result ∧ result.Serves key snapshot ids := by
  intro engine serves
  obtain ⟨result, after, serving, afterServes, looked⟩ := serves.lookup
  refine ⟨some result, { engine with
    cache := after, journal := engine.journal ++ .event (.lookup key.kind .hit) }, ?_,
      ⟨result, rfl, serving⟩, afterServes, rfl, rfl⟩
  rw [Action.onCache, looked]

/-- What is read of a result that serves is what it holds, whether it was read before or not. -/
theorem readView {result : CachedResult} (serving : result.Serves key snapshot ids) :
    ServedBy key snapshot ids 0 (Action.readView result) (· = ids) := by
  intro engine serves
  have shown : result.toSet.1 = ids := serving.coherent.toSet_eq.trans serving.ids_eq
  exact ⟨result.toSet.1, { engine with cache := engine.cache.replaceKept result.toSet.2 }, rfl,
    shown, serves.replaceKept serving.toSet, rfl, engine.journal.append_ofEvents_nil.symm⟩

theorem retire_nil : ServedBy key snapshot ids 0 (Action.retire []) fun _ => True := by
  intro engine serves
  have nothingRetired : engine.ledger.retired ++ [] = engine.ledger.retired := List.append_nil _
  refine ⟨(), { engine with ledger := engine.ledger }, ?_, trivial, serves, rfl,
    engine.journal.append_ofEvents_nil.symm⟩
  rw [Action.retire, nothingRetired]

/-- Reading a set opens no cursor, so none is entered into the ledger. -/
theorem collect (set : IdSet) :
    ServedBy key snapshot ids 0 (Action.collect (.ofSet set)) (· = set.ids) := by
  have drained := Traversal.drain_of_delivers (Traversal.delivers_ofSet set)
  have collected : (Traversal.ofSet set).collect = (.ok set.ids, []) := Prod.ext drained rfl
  rw [Action.collect, collected]
  exact retire_nil.finish fun _ _ => .pure rfl

end Action.ServedBy

section Requests

variable {selection : Selection} (cacheable : selection.cacheable = true) (view : StoreView)
  (ids : IdSet)

namespace Transaction

include cacheable

theorem serves_of_cacheable : (Transaction.mk view true).serves selection = true := by
  rw [serves, cacheable]
  rfl

omit cacheable in
theorem result_served (raw : Action Traversal) :
    ((Transaction.mk view true).result selection raw).ServedBy selection.key view.version ids 1
      fun result => result.Serves selection.key view.version ids := by
  have found : (Action.getOrCompute selection.key view.version do
      Action.collect (← raw)).ServedBy selection.key view.version ids 1
        fun answer => answer.2.Serves selection.key view.version ids := by
    refine Action.ServedBy.lookup.finish ?_
    rintro _ ⟨result, rfl, serving⟩
    exact .pure serving
  exact found.finish fun _ serving => .pure serving

theorem traversal_served (raw : Action Traversal) :
    ((Transaction.mk view true).traversal selection raw).ServedBy selection.key view.version ids 1
      (· = .ofSet ids) := by
  rw [traversal, if_pos (serves_of_cacheable cacheable view)]
  refine (result_served view ids raw).finish fun result serving => ?_
  refine (Action.ServedBy.readView serving).finish ?_
  rintro shown rfl
  exact .pure rfl

theorem set_served (raw : Action Traversal) :
    ((Transaction.mk view true).set selection raw).ServedBy selection.key view.version ids 1
      (· = ids) := by
  rw [set, if_pos (serves_of_cacheable cacheable view)]
  exact (result_served view ids raw).finish fun result serving => .readView serving

end Transaction

include cacheable

theorem Query.kept_served :
    (Query.kept (Transaction.mk view true) selection).ServedBy selection.key view.version ids 1
      fun found => ∃ result, found = some result ∧
        result.Serves selection.key view.version ids := by
  rw [Query.kept, if_pos (Transaction.serves_of_cacheable cacheable view)]
  exact .lookup

theorem Query.count_served :
    ((Query.select selection).count (Transaction.mk view true)).ServedBy selection.key view.version
      ids 1 (· = ids.size) := by
  cases selection with
  | ofType typeId =>
      refine (Query.kept_served cacheable view ids).finish ?_
      rintro _ ⟨result, rfl, serving⟩
      exact .pure (congrArg IdSet.size serving.ids_eq)
  | withLink | linkedTo | union | inter =>
      simp only [Query.count]
      rw [if_pos (Transaction.serves_of_cacheable cacheable view)]
      exact (Transaction.result_served view ids _).finish fun result serving =>
        .pure (congrArg IdSet.size serving.ids_eq)

theorem Query.materialize_served :
    ((Query.select selection).materialize (Transaction.mk view true)).ServedBy selection.key
      view.version ids 1 (· = ids.ids) := by
  refine (Transaction.traversal_served cacheable view ids _).finish ?_
  rintro _ rfl
  exact .collect ids

theorem Query.isEmpty_served :
    ((Query.select selection).isEmpty (Transaction.mk view true)).ServedBy selection.key
      view.version ids 1 (· = ids.isEmpty) := by
  refine (Query.kept_served cacheable view ids).finish ?_
  rintro _ ⟨result, rfl, serving⟩
  exact .pure (congrArg IdSet.isEmpty serving.ids_eq)

/-- Each request is answered by one look-up of the result that is kept. -/
theorem Request.run_served (request : Request) :
    (request.run (Transaction.mk view true) (.select selection)).ServedBy selection.key
      view.version ids 1 (· = request.reply ids) := by
  cases request with
  | materialize =>
      refine (Query.materialize_served cacheable view ids).finish ?_
      rintro _ rfl
      exact .pure rfl
  | toSet =>
      refine (Transaction.set_served cacheable view ids _).finish ?_
      rintro _ rfl
      exact .pure rfl
  | count =>
      refine (Query.count_served cacheable view ids).finish ?_
      rintro _ rfl
      exact .pure rfl
  | isEmpty =>
      refine (Query.isEmpty_served cacheable view ids).finish ?_
      rintro _ rfl
      exact .pure rfl
  | drain =>
      refine (Transaction.traversal_served cacheable view ids _).finish ?_
      rintro _ rfl
      rw [Traversal.drain_of_delivers (Traversal.delivers_ofSet ids)]
      exact .pure rfl

end Requests

/-! ## Several requests -/

namespace Request

/-- Ask a query several times. -/
def runAll (transaction : Transaction) (query : Query) (requests : List Request) :
    Action (List Reply) :=
  requests.mapM fun request => request.run transaction query

theorem runAll_nil (transaction : Transaction) (query : Query) :
    runAll transaction query [] = pure [] :=
  List.mapM_nil

theorem runAll_cons (transaction : Transaction) (query : Query) (request : Request)
    (requests : List Request) :
    runAll transaction query (request :: requests) = (do
      let reply ← request.run transaction query
      let replies ← runAll transaction query requests
      return reply :: replies) :=
  List.mapM_cons

theorem runAll_succeeds (store : MemoryStore) (cached : Bool) (query : Query)
    (requests : List Request) :
    (runAll (store.transaction cached) query requests).Succeeds (store.Keeps cached)
      (· = requests.map fun request => request.reply (query.answer store)) := by
  induction requests with
  | nil =>
      rw [runAll_nil]
      exact .pure rfl
  | cons request requests inductionHypothesis =>
      rw [runAll_cons]
      refine (request.run_succeeds store cached query).bind ?_
      rintro _ rfl
      refine inductionHypothesis.bind ?_
      rintro _ rfl
      exact .pure rfl

theorem runAll_served {selection : Selection} (cacheable : selection.cacheable = true)
    (view : StoreView) (ids : IdSet) (requests : List Request) :
    (runAll (Transaction.mk view true) (.select selection) requests).ServedBy selection.key
      view.version ids requests.length (· = requests.map fun request => request.reply ids) := by
  induction requests with
  | nil =>
      rw [runAll_nil]
      exact .pure rfl
  | cons request requests inductionHypothesis =>
      rw [runAll_cons, List.length_cons, Nat.add_comm]
      refine (request.run_served cacheable view ids).bind ?_
      rintro _ rfl
      refine inductionHypothesis.finish ?_
      rintro _ rfl
      exact .pure rfl

end Request

/-- A query lists nothing but its answer. -/
theorem Query.Lists.eq_answer {query : Query} {store : MemoryStore} {ids : List EntityId}
    (listed : query.Lists store ids) (cache : ResultCache) : ids = (query.answer store).ids := by
  have fromHere := (query.lists_answer store ⟨cache, ⟨[], 0, 0⟩, .empty⟩).symm.trans (listed _)
  exact (Except.ok.inj fromHere).symm

/-! ## Changes of entities -/

/-- A store and a cache that is notified of its changes. -/
structure NotifiedStore where
  store : MemoryStore
  cache : ResultCache

namespace NotifiedStore

/--
An entity is added or removed, and the cache is notified of it at a version which the store takes
on.  The versions are above the one that was published, and do not descend.  Between such changes
the result that is kept for the query may be read by its holders, the first of whom is the request
that published it.
-/
inductive Step (query : Query) (published : Nat) : NotifiedStore → NotifiedStore → Prop
  | added {state : NotifiedStore} {id : EntityId} {version : Nat} :
      id ∉ state.store.entities → published < version → state.store.version ≤ version →
        Step query published state
          ⟨(state.store.addEntity id).setVersion version, (state.cache.notifyAdded id version).1⟩
  | removed {state : NotifiedStore} (id : EntityId) {version : Nat} :
      published < version → state.store.version ≤ version →
        Step query published state
          ⟨(state.store.removeEntity id).setVersion version,
            (state.cache.notifyDeleted id version).1⟩
  | read {state : NotifiedStore} {result : CachedResult} :
      state.cache.results.find? query.key = some result →
        Step query published state ⟨state.store, state.cache.replaceKept result.toSet.2⟩

/-- A result that was published for a query, and serves its answer on a store. -/
structure UpToDate (query : Query) (published serial : Nat) (store : MemoryStore)
    (result : CachedResult) : Prop where
  serial : result.serial = serial
  computedAt : result.computedAt = published
  serves : result.Serves query.key store.version (query.answer store)

variable {query : Query} {selection : Selection} {published serial version : Nat}

/-- What a notification leaves of a result is the answer on the store that was notified of. -/
theorem UpToDate.patched {mutation : Mutation} {store changed : MemoryStore}
    {old result : CachedResult} (upToDate : UpToDate query published serial store old)
    (leaves : mutation.Leaves version query.key old result)
    (leads : mutation.Leads store (changed.setVersion version))
    (valid : mutation.reaction query.key ≠ .invalidate) (above : published < version)
    (inOrder : store.version ≤ version) :
    UpToDate query published serial (changed.setVersion version) result where
  serial := leaves.serial_eq.trans upToDate.serial
  computedAt := leaves.computedAt_eq.trans upToDate.computedAt
  serves := {
    own := leaves.key_eq.trans upToDate.serves.own
    notNewer := leaves.version_le (Nat.le_trans upToDate.serves.notNewer inOrder)
    ids_eq := leaves.ids_eq leads valid (upToDate.computedAt ▸ above) upToDate.serves.ids_eq
    coherent := leaves.coherent upToDate.serves.coherent }

/-- Reading a result changes nothing of what it serves. -/
theorem UpToDate.read {store : MemoryStore} {result : CachedResult}
    (upToDate : UpToDate query published serial store result) :
    UpToDate query published serial store result.toSet.2 := by
  have serves := upToDate.serves.toSet
  obtain ⟨view, after⟩ := result.toSet_after
  rw [after] at serves ⊢
  exact ⟨upToDate.serial, upToDate.computedAt, serves⟩

/-- The published result of a query is kept, and is the answer on the store. -/
structure Resident (query : Query) (published serial : Nat) (state : NotifiedStore) : Prop where
  stored : state.store.SourcesStored
  enabled : state.cache.config.enabled = true
  kept : ∃ result, state.cache.results.find? query.key = some result ∧
    UpToDate query published serial state.store result

variable {before after state : NotifiedStore}

theorem resident_step (cacheable : selection.cacheable = true)
    (resident : before.Resident (.select selection) published serial)
    (step : Step (.select selection) published before after) :
    after.Resident (.select selection) published serial := by
  obtain ⟨stored, enabled, old, found, upToDate⟩ := resident
  cases step with
  | @added id version missing above inOrder =>
      have valid := Selection.addedReaction_ne_invalidate cacheable id
      obtain ⟨result, foundAfter, leaves⟩ :=
        ResultCache.find?_notifyAdded found valid (Nat.le_trans upToDate.serves.notNewer inOrder)
      have leads : (Mutation.added id).Leads before.store
          ((before.store.addEntity id).setVersion version) :=
        .added (stored.absent missing) (.setVersion _ version)
      exact ⟨stored.addEntity id, enabled, result, foundAfter,
        upToDate.patched leaves leads valid above inOrder⟩
  | @removed id version above inOrder =>
      have valid := Selection.deletedReaction_ne_invalidate cacheable id
      obtain ⟨result, foundAfter, leaves⟩ :=
        ResultCache.find?_notifyDeleted found valid (Nat.le_trans upToDate.serves.notNewer inOrder)
      have leads : (Mutation.removed id).Leads before.store
          ((before.store.removeEntity id).setVersion version) :=
        .removed (.setVersion _ version)
      exact ⟨stored.removeEntity id, enabled, result, foundAfter,
        upToDate.patched leaves leads valid above inOrder⟩
  | read readerFound =>
      obtain rfl := Option.some.inj (found.symm.trans readerFound)
      refine ⟨stored, enabled, _, ResultCache.find?_replaceKept found old.toSet.2, ?_⟩
      split
      · exact upToDate.read
      · exact upToDate

theorem resident_of_steps (cacheable : selection.cacheable = true)
    (resident : before.Resident (.select selection) published serial)
    (steps : Relation.ReflTransGen (Step (.select selection) published) before after) :
    after.Resident (.select selection) published serial := by
  induction steps with
  | refl => exact resident
  | tail _ step inductionHypothesis => exact resident_step cacheable inductionHypothesis step

/-- The state behind the publication of a result. -/
def publishing (store : MemoryStore) (cache : ResultCache) (query : Query) (ids : List EntityId) :
    NotifiedStore :=
  ⟨store, (cache.publish query.key store.version ids).2.1⟩

theorem resident_publishing {store : MemoryStore} {cache : ResultCache}
    (stored : store.SourcesStored)
    (published : (cache.publish query.key store.version (query.answer store).ids).2.2 =
      .event (.materialize query.key.kind (query.answer store).ids.length .published)) :
    (publishing store cache query (query.answer store).ids).Resident query store.version
      cache.nextSerial := by
  obtain ⟨enabled, found⟩ := ResultCache.find?_publish published
  exact ⟨stored, enabled, _, found, rfl, rfl, rfl, Nat.le_refl _, IdSet.ofList_ids _,
    CachedResult.coherent_ofIds _ _ _ _⟩

/-- The request that published a result reads it, and the result keeps the view. -/
theorem exists_read_publishing {store : MemoryStore} {cache : ResultCache} {ids : List EntityId}
    (reported : (cache.publish query.key store.version ids).2.2 =
      .event (.materialize query.key.kind ids.length .published)) :
    ∃ shown, Step query published (publishing store cache query ids) shown ∧
      shown.store = store ∧ ∃ result, shown.cache.results.find? query.key = some result ∧
        result.view = some (.ofList ids) := by
  have found := (ResultCache.find?_publish reported).2
  have kept := ResultCache.find?_replaceKept found
    (CachedResult.ofIds query.key store.version ids cache.nextSerial).toSet.2
  rw [if_pos ⟨rfl, rfl⟩] at kept
  exact ⟨_, .read found, rfl, _, kept, rfl⟩

/-- A resident result serves every reader that is not behind the store. -/
theorem Resident.serves (resident : state.Resident query published serial) {snapshot : Nat}
    (notBehind : state.store.version ≤ snapshot) :
    state.cache.Serves query.key snapshot (query.answer state.store) := by
  obtain ⟨_, enabled, result, found, upToDate⟩ := resident
  exact ⟨enabled, result, found,
    { upToDate.serves with notNewer := Nat.le_trans upToDate.serves.notNewer notBehind }⟩

/--
What a cache holds for a query: the published result itself, under its serial, from which every
number of requests is answered by look-ups that hit.  Whatever else the transaction shows of the
store, the cursors and the count calls in the ledger stay as they are, and the replies are those of
the query without the cache.
-/
structure Answers (query : Query) (serial : Nat) (state : NotifiedStore) : Prop where
  resident : (state.cache.kept? query.key serial).isSome = true
  served : ∀ (view : StoreView) (engine : Engine) (requests : List Request),
    state.store.version ≤ view.version → engine.cache = state.cache →
      ∃ replies after,
        Request.runAll ⟨view, true⟩ query requests engine = (.ok replies, after) ∧
          after.ledger = engine.ledger ∧
          after.journal = engine.journal ++
            .ofEvents (.replicate requests.length (.lookup query.key.kind .hit)) ∧
          ∀ other : Engine,
            (Request.runAll (state.store.transaction false) query requests other).1 = .ok replies

/--
A result that was published for a query stays resident under changes of entities that are notified
in order, and it answers as the query does without the cache on the changed store.
-/
theorem answers_of_steps {store : MemoryStore} {cache : ResultCache} {ids : List EntityId}
    (stored : store.SourcesStored) (cacheable : query.cacheable = true)
    (listed : query.Lists store ids)
    (published : (cache.publish query.key store.version ids).2.2 =
      .event (.materialize query.key.kind ids.length .published))
    (steps : Relation.ReflTransGen (Step query store.version)
      (publishing store cache query ids) state) :
    state.Answers query cache.nextSerial := by
  cases query with
  | empty => cases cacheable
  | select selection =>
      obtain rfl := listed.eq_answer cache
      have resident := resident_of_steps cacheable (resident_publishing stored published) steps
      constructor
      · obtain ⟨_, _, result, found, upToDate⟩ := resident
        rw [ResultCache.kept?, found]
        simp [upToDate.serial]
      · intro view engine requests notBehind sameCache
        have serves := resident.serves notBehind
        rw [← sameCache] at serves
        obtain ⟨replies, after, step, rfl, _, ledger, journal⟩ :=
          Request.runAll_served cacheable view _ requests engine serves
        refine ⟨_, after, step, ledger, journal, ?_⟩
        intro other
        exact (Request.runAll_succeeds state.store false _ requests).answer_eq nofun

/-- A union whose result is read when it is published, before one member is added and another one is
removed at the same version. -/
theorem answers_of_steps_union :
    let store := ((MemoryStore.empty.addEntity ⟨1, 1⟩).addLink ⟨1, 1⟩ "owner" ⟨2, 7⟩).2
    let query := (Query.ofType 2).union (.withLink 1 1)
    let cache : ResultCache := ⟨.default, .ofCapacity CacheConfig.default.cacheSize, 0, 0⟩
    ∃ shown state, Step query 0 (publishing store cache query [⟨1, 1⟩]) shown ∧
      (∃ result, shown.cache.results.find? query.key = some result ∧
        result.view = some (.ofList [⟨1, 1⟩])) ∧
        Relation.ReflTransGen (Step query 0) shown state ∧
          state.store.version = 3 ∧ state.store.entities.ids = [⟨2, 5⟩] ∧
            state.Answers query cache.nextSerial := by
  intro store query cache
  have empty : MemoryStore.empty.SourcesStored := by
    intro edge member
    cases member
  have stored : store.SourcesStored :=
    (empty.addEntity ⟨1, 1⟩).addLink "owner" ⟨2, 7⟩ (IdSet.mem_insert.2 (.inl rfl))
  have answer : (query.answer store).ids = [⟨1, 1⟩] := by
    show Pair.merged [] [⟨1, 1⟩] = [⟨1, 1⟩]
    simp [Pair.merged]
  have listed : query.Lists store [⟨1, 1⟩] := answer ▸ query.lists_answer store
  have unrivalled : ∀ existing ∈ cache.results.find? query.key, existing.version ≤ 0 := by
    rw [show cache.results.find? query.key = none from
      PartitionedCache.find?_ofCapacity _ query.key]
    intro existing kept
    cases kept
  have published : (cache.publish query.key store.version [⟨1, 1⟩]).2.2 =
      .event (.materialize query.key.kind 1 .published) :=
    ResultCache.publish_of_admissible rfl (by decide) (Nat.le_refl 0) unrivalled
  obtain ⟨⟨_, shown⟩, reads, rfl, viewed⟩ :
      ∃ shown, Step query 0 (publishing store cache query [⟨1, 1⟩]) shown ∧ shown.store = store ∧
        ∃ result, shown.cache.results.find? query.key = some result ∧
          result.view = some (.ofList [⟨1, 1⟩]) := exists_read_publishing published
  let grown := (store.addEntity ⟨2, 5⟩).setVersion 3
  have missing : (⟨2, 5⟩ : EntityId) ∉ store.entities := by decide
  have adds : Step query 0 ⟨store, shown⟩ ⟨grown, (shown.notifyAdded ⟨2, 5⟩ 3).1⟩ :=
    .added missing (Nat.succ_pos 2) (Nat.zero_le 3)
  have removes : Step query 0 ⟨grown, (shown.notifyAdded ⟨2, 5⟩ 3).1⟩
      ⟨(grown.removeEntity ⟨1, 1⟩).setVersion 3,
        ((shown.notifyAdded ⟨2, 5⟩ 3).1.notifyDeleted ⟨1, 1⟩ 3).1⟩ :=
    .removed ⟨1, 1⟩ (Nat.succ_pos 2) (Nat.le_refl 3)
  have left : ((grown.removeEntity ⟨1, 1⟩).setVersion 3).entities.ids = [⟨2, 5⟩] := by decide
  have later := (Relation.ReflTransGen.single adds).tail removes
  exact ⟨⟨store, shown⟩, _, reads, viewed, later, rfl, left,
    answers_of_steps stored rfl listed published (later.head reads)⟩

end NotifiedStore

end EntityQuery
