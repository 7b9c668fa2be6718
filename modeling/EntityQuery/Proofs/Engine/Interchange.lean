import EntityQuery.Proofs.Cache.Transparency
import EntityQuery.Query.Comparison

/-!
# What a key stands for

A key stands for the queries that have it, and it names the indexes that they read.

* Queries whose keys compare as equal are interchangeable: they answer alike on every store, with
  and without the result cache, and every change of a store touches their results alike.
* Run without the cache, a query does the same on two stores that agree on the indexes its key
  names, whatever else they hold.
-/

namespace EntityQuery

namespace Query

/-- Without the cache, every request is answered from a set, from every engine. -/
structure Answers (query : Query) (store : MemoryStore) (set : IdSet) : Prop where
  materialize : ∀ engine : Engine,
    (query.materialize (store.transaction false) engine).1 = .ok set.ids
  toSet : ∀ engine : Engine, (query.toSet (store.transaction false) engine).1 = .ok set
  count : ∀ engine : Engine, (query.count (store.transaction false) engine).1 = .ok set.size
  isEmpty : ∀ engine : Engine, (query.isEmpty (store.transaction false) engine).1 = .ok set.isEmpty

theorem answers_answer (query : Query) (store : MemoryStore) :
    query.Answers store (query.answer store) where
  materialize _ := (query.materialize_succeeds store false).answer_eq nofun
  toSet _ := (query.toSet_succeeds store false).answer_eq nofun
  count _ := (query.count_succeeds store false).answer_eq nofun
  isEmpty _ := (query.isEmpty_succeeds store false).answer_eq nofun

/-! ## Queries with one key -/

/--
Two queries that neither a store nor the cache can tell apart.  The cache may serve faithful
results, and it places, compares and patches them by what is computed from the key.
-/
structure Interchangeable (left right : Query) : Prop where
  answers : ∀ store : MemoryStore, ∃ set : IdSet, left.Answers store set ∧ right.Answers store set
  replies : ∀ (store : MemoryStore) (cached : Bool) (request : Request) (engine : Engine),
    store.Keeps cached engine.cache →
      (request.run (store.transaction cached) left engine).1 =
        (request.run (store.transaction cached) right engine).1
  stableHash : left.key.stableHash = right.key.stableHash
  canonical : left.key.canonical = right.key.canonical
  affectingTypes : left.key.affectingTypes = right.key.affectingTypes
  affectingLinks : left.key.affectingLinks = right.key.affectingLinks
  addedReaction : ∀ id, left.key.addedReaction id = right.key.addedReaction id
  deletedReaction : ∀ id, left.key.deletedReaction id = right.key.deletedReaction id
  linkReaction : ∀ typeId linkId,
    left.key.linkReaction typeId linkId = right.key.linkReaction typeId linkId

theorem interchangeable_of_key_eq {left right : Query} (sameKey : left.key = right.key) :
    left.Interchangeable right := by
  have sameAnswer (store : MemoryStore) : left.answer store = right.answer store :=
    answer_eq_of_members_eq (members_congr_key store sameKey)
  constructor
  case answers =>
    intro store
    refine ⟨left.answer store, left.answers_answer store, ?_⟩
    rw [sameAnswer store]
    exact right.answers_answer store
  case replies =>
    intro store cached request engine keeps
    rw [(request.run_succeeds store cached left).answer_eq keeps,
      (request.run_succeeds store cached right).answer_eq keeps, sameAnswer store]
  all_goals
    intros
    rw [sameKey]

end Query

/-- Trees of constructors whose keys compare as equal build interchangeable queries. -/
theorem QueryTree.interchangeable_of_compares {left right : QueryTree}
    (equal : left.build.key.compares right.build.key = true) :
    left.build.Interchangeable right.build :=
  Query.interchangeable_of_key_eq ((QueryKey.compares_iff_eq _ _).1 equal)

/-- Operands of a union may be exchanged, and the empty query left out. -/
theorem QueryTree.interchangeable_exchanged :
    (union (ofType 1) (withLink 2 3)).build.key.compares
        (union (union (withLink 2 3) empty) (ofType 1)).build.key = true ∧
      (union (ofType 1) (withLink 2 3)).build.Interchangeable
        (union (union (withLink 2 3) empty) (ofType 1)).build := by
  have sameKey : (union (ofType 1) (withLink 2 3)).build.key =
      (union (union (withLink 2 3) empty) (ofType 1)).build.key :=
    QueryKey.ofParts_exchange rfl (by decide +kernel) (by decide +kernel)
  have equal := (QueryKey.compares_iff_eq _ _).2 sameKey
  exact ⟨equal, interchangeable_of_compares equal⟩

/-! ## Stores that agree on the indexes of a key -/

namespace Transaction

variable {first second : MemoryStore}

theorem serves_uncached (store : MemoryStore) (selection : Selection) :
    ¬ (store.transaction false).serves selection = true :=
  Bool.false_ne_true

theorem traversal_uncached (store : MemoryStore) (selection : Selection) (raw : Action Traversal) :
    (store.transaction false).traversal selection raw = raw :=
  if_neg (serves_uncached store selection)

theorem set_uncached (store : MemoryStore) (selection : Selection) (raw : Action Traversal) :
    (store.transaction false).set selection raw =
      (do return .ofList (← Action.collect (← raw))) :=
  if_neg (serves_uncached store selection)

theorem entities_congr {typeId : TypeId}
    (same : first.entitiesOf typeId = second.entitiesOf typeId) :
    (fun number => (first.transaction false).view.entities number typeId) =
      fun number => (second.transaction false).view.entities number typeId := by
  funext number
  show Except.ok _ = Except.ok _
  rw [same]

theorem links_congr {typeId : TypeId} {linkId : LinkId}
    (same : first.edgesOf typeId linkId = second.edgesOf typeId linkId) :
    (fun number => (first.transaction false).view.links number typeId linkId) =
      fun number => (second.transaction false).view.links number typeId linkId := by
  funext number
  show Except.ok _ = Except.ok _
  rw [same]

/-- Without the cache, the raw traversal of a selection opens the indexes that its key names. -/
theorem raw_congr {selection : Selection} (same : selection.key.SameIndexes first second) :
    (first.transaction false).raw selection = (second.transaction false).raw selection := by
  induction selection with
  | ofType typeId => rw [raw, raw, entities_congr (Selection.entitiesOf_congr same)]
  | withLink typeId linkId => rw [raw, raw, links_congr (Selection.edgesOf_congr same)]
  | linkedTo typeId linkId target inductionHypothesis =>
      obtain ⟨sameEdges, sameTarget⟩ := same.decorated
      rw [raw, raw, set_uncached, set_uncached, inductionHypothesis sameTarget,
        links_congr (Selection.edgesOf_congr sameEdges)]
  | union left right leftHypothesis rightHypothesis
  | inter left right leftHypothesis rightHypothesis =>
      obtain ⟨sameLeft, sameRight⟩ := same.operands
      simp only [raw, traversal_uncached, leftHypothesis sameLeft, rightHypothesis sameRight]

end Transaction

namespace Query

variable {first second : MemoryStore} {query : Query}

theorem kept_uncached (store : MemoryStore) (selection : Selection) :
    kept (store.transaction false) selection = return none :=
  if_neg (Transaction.serves_uncached store selection)

theorem storeCount_congr {typeId : TypeId}
    (same : first.entitiesOf typeId = second.entitiesOf typeId) :
    storeCount (first.transaction false) typeId = storeCount (second.transaction false) typeId := by
  have sameCount : (first.transaction false).view.count typeId =
      (second.transaction false).view.count typeId := by
    show CountAnswer.called (.ok _) = CountAnswer.called (.ok _)
    rw [same]
  rw [storeCount, storeCount, sameCount]

theorem traverse_congr (same : query.key.SameIndexes first second) :
    query.traverse (first.transaction false) = query.traverse (second.transaction false) := by
  cases query with
  | empty => rfl
  | select selection =>
      simp only [traverse, Transaction.traversal_uncached]
      exact Transaction.raw_congr same

theorem toSet_congr (same : query.key.SameIndexes first second) :
    query.toSet (first.transaction false) = query.toSet (second.transaction false) := by
  cases query with
  | empty => rfl
  | select selection =>
      simp only [toSet, Transaction.set_uncached]
      rw [Transaction.raw_congr same]

theorem isEmpty_congr (same : query.key.SameIndexes first second) :
    query.isEmpty (first.transaction false) = query.isEmpty (second.transaction false) := by
  cases query with
  | empty => rfl
  | select selection =>
      simp only [isEmpty, kept_uncached, Transaction.raw_congr same]
      cases selection with
      | ofType typeId => simp only [storeCount_congr (Selection.entitiesOf_congr same)]
      | withLink | linkedTo | union | inter => rfl

theorem count_congr (same : query.key.SameIndexes first second) :
    query.count (first.transaction false) = query.count (second.transaction false) := by
  cases query with
  | empty => rfl
  | select selection =>
      cases selection with
      | ofType typeId =>
          simp only [count, kept_uncached, storeCount_congr (Selection.entitiesOf_congr same)]
      | withLink | linkedTo | union | inter =>
          simp only [count, if_neg (Transaction.serves_uncached _ _), Transaction.raw_congr same]

theorem run_congr (same : query.key.SameIndexes first second) (request : Request) :
    request.run (first.transaction false) query = request.run (second.transaction false) query := by
  cases request with
  | materialize | drain => simp only [Request.run, materialize, traverse_congr same]
  | toSet => simp only [Request.run, toSet_congr same]
  | count => simp only [Request.run, count_congr same]
  | isEmpty => simp only [Request.run, isEmpty_congr same]

/--
On two stores that agree on the indexes its key names, a query answers every request alike.  It also
leaves every engine alike: it opens the same cursors, moves them alike and reports the same events.
-/
theorem uncached_congr_indexes (same : query.key.SameIndexes first second) :
    (∃ set : IdSet, query.Answers first set ∧ query.Answers second set) ∧
      ∀ request : Request,
        request.run (first.transaction false) query =
          request.run (second.transaction false) query := by
  refine ⟨⟨query.answer first, query.answers_answer first, ?_⟩, run_congr same⟩
  rw [answer_eq_of_members_eq (members_congr_store same)]
  exact query.answers_answer second

/-- The stores differ in a type, a link, a link name and the version. -/
theorem uncached_congr_indexes_linkedTo :
    ∃ first second : MemoryStore, first.entities ≠ second.entities ∧ first.edges ≠ second.edges ∧
      first.linkNames ≠ second.linkNames ∧ first.version ≠ second.version ∧
        ((withLink 2 1).linkedTo 1 1).key.SameIndexes first second ∧
          ∃ set : IdSet, ((withLink 2 1).linkedTo 1 1).Answers first set ∧
            ((withLink 2 1).linkedTo 1 1).Answers second set := by
  let first : MemoryStore :=
    ((MemoryStore.empty.addLink ⟨1, 1⟩ "owner" ⟨2, 7⟩).2.addLink ⟨2, 7⟩ "owner" ⟨1, 1⟩).2
  let second : MemoryStore :=
    ((first.addLink ⟨1, 1⟩ "seen" ⟨2, 8⟩).2.addEntity ⟨3, 1⟩).setVersion 9
  have types : ((withLink 2 1).linkedTo 1 1).key.affectingTypes = [1, 2] := by decide +kernel
  have links : ((withLink 2 1).linkedTo 1 1).key.affectingLinks = [1] := by decide +kernel
  have same : ((withLink 2 1).linkedTo 1 1).key.SameIndexes first second := by
    constructor
    · intro typeId named
      rw [types] at named
      rcases List.mem_pair.1 named with rfl | rfl
      · decide
      · decide
    · intro typeId namedType linkId namedLink
      rw [types] at namedType
      rw [links] at namedLink
      obtain rfl := List.mem_singleton.1 namedLink
      rcases List.mem_pair.1 namedType with rfl | rfl
      · decide
      · decide
  exact ⟨first, second, by decide, by decide, by decide, by decide, same,
    (uncached_congr_indexes same).1⟩

end Query

end EntityQuery
