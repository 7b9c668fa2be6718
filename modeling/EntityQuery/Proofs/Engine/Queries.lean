import EntityQuery.Proofs.Cache.Kept
import EntityQuery.Proofs.Engine.Answers
import EntityQuery.Proofs.Engine.Succeeds

/-!
# Running queries on a store in memory

Every request succeeds with what the answer of the query says, with and without the result cache.
With it, all kept results have to be faithful: each is the answer of some query with its key, and if
it has a view, the view shows that answer.  The request then leaves only faithful results, so the
two ways to run a query differ in nothing that it answers.

The proof is by induction on the selection.  The raw traversal of a selection delivers its answer if
those of its operands do, and a result that is served or published is the answer in either case.
-/

namespace EntityQuery

theorem IdSet.ofList_ids (set : IdSet) : ofList set.ids = set := by
  ext id
  rw [mem_ofList, mem_def]

/-- A kept result is the answer of a query with its key, and shows nothing else. -/
structure CachedResult.Faithful (store : MemoryStore) (version : Nat) (key : QueryKey)
    (result : CachedResult) : Prop where
  query : ∃ query : Query, query.key = key ∧ result.ids = query.answer store
  own : result.key = key
  coherent : result.Coherent
  computed : result.computedAt ≤ result.version
  current : result.version ≤ version

/-- All kept results are answers on a store, and none is newer than a version. -/
def ResultCache.Faithful (store : MemoryStore) (version : Nat) : ResultCache → Prop :=
  Every fun key result => result.Faithful store version key

theorem CachedResult.Faithful.ids_eq {store : MemoryStore} {version : Nat} {result : CachedResult}
    {selection : Selection} (faithful : result.Faithful store version selection.key) :
    result.ids = selection.answer store := by
  obtain ⟨other, sameKey, ids⟩ := faithful.query
  have sameQueryKey : other.key = (Query.select selection).key := sameKey
  rw [ids, Query.answer_eq_of_members_eq (Query.members_congr_key store sameQueryKey)]
  rfl

/-- A result that is read stays faithful. -/
theorem CachedResult.Faithful.toSet {store : MemoryStore} {version : Nat} {key : QueryKey}
    {result : CachedResult} (faithful : result.Faithful store version key) :
    result.toSet.2.Faithful store version key := by
  have coherent := faithful.coherent.toSet
  obtain ⟨view, after⟩ := result.toSet_after
  rw [after] at coherent ⊢
  exact ⟨faithful.query, faithful.own, coherent, faithful.computed, faithful.current⟩

/-- The transaction of a store in memory. -/
def MemoryStore.transaction (store : MemoryStore) (cached : Bool) : Transaction :=
  ⟨store.view, cached⟩

/-- What a transaction keeps of the cache: faithful results, if it uses the cache at all. -/
def MemoryStore.Keeps (store : MemoryStore) (cached : Bool) (cache : ResultCache) : Prop :=
  cached = true → cache.Faithful store store.version

namespace Transaction

variable {store : MemoryStore} {cached : Bool} {selection : Selection} {raw : Action Traversal}

theorem cached_of_serves (serves : (store.transaction cached).serves selection = true) :
    cached = true := by
  rw [Transaction.serves, Bool.and_eq_true] at serves
  exact serves.1

theorem lookup_succeeds (serves : (store.transaction cached).serves selection = true) :
    (Action.onCache fun cache => cache.lookup selection.key store.version).Succeeds
      (store.Keeps cached) fun found =>
        ∀ result ∈ found, result.Faithful store store.version selection.key := by
  refine .onCache fun cache keeps => ?_
  have faithful := keeps (cached_of_serves serves)
  obtain ⟨_, _, valid⟩ := cache.lookup_spec selection.key store.version
  refine ⟨?_, fun _ => faithful.lookup selection.key store.version⟩
  intro result found
  exact faithful _ _ (valid result found).1

theorem publish_succeeds :
    (Action.onCache fun cache =>
      cache.publish selection.key store.version (selection.answer store).ids).Succeeds
        (store.Keeps cached) fun result =>
          result.Faithful store store.version selection.key := by
  refine .onCache fun cache keeps => ?_
  have faithful : (CachedResult.ofIds selection.key store.version (selection.answer store).ids
      cache.nextSerial).Faithful store store.version selection.key :=
    ⟨⟨.select selection, rfl, IdSet.ofList_ids _⟩, rfl, CachedResult.coherent_ofIds _ _ _ _,
      Nat.le_refl _, Nat.le_refl _⟩
  exact ⟨faithful, fun used => (keeps used).publish fun _ => faithful⟩

/-- A served result is the answer, kept or computed. -/
theorem result_succeeds (serves : (store.transaction cached).serves selection = true)
    (delivers : raw.Succeeds (store.Keeps cached) fun traversal =>
      traversal.Delivers (selection.answer store).ids) :
    ((store.transaction cached).result selection raw).Succeeds (store.Keeps cached) fun result =>
      result.Faithful store store.version selection.key := by
  have computing : (Action.getOrCompute selection.key store.version do
      Action.collect (← raw)).Succeeds (store.Keeps cached) fun answer =>
        answer.2.Faithful store store.version selection.key := by
    refine (lookup_succeeds serves).bind fun found valid => ?_
    cases found with
    | some result => exact .pure (valid result rfl)
    | none =>
        refine (delivers.bind fun _ => .collect).bind ?_
        rintro ids rfl
        exact publish_succeeds.bind fun result faithful => .pure faithful
  exact computing.bind fun _ faithful => .pure faithful

/-- What is read from the view of a served result is the answer. -/
theorem readView_succeeds {result : CachedResult}
    (faithful : result.Faithful store store.version selection.key) :
    (Action.readView result).Succeeds (store.Keeps cached) (· = selection.answer store) := by
  have reading : (Action.readView result).Succeeds (store.Keeps cached) (· = result.toSet.1) := by
    refine .readView fun cache keeps used => (keeps used).replaceKept ?_
    have after := faithful.toSet
    rwa [← after.own] at after
  refine reading.mono fun view shown => ?_
  rw [shown, faithful.coherent.toSet_eq]
  exact faithful.ids_eq

theorem traversal_succeeds
    (delivers : raw.Succeeds (store.Keeps cached) fun traversal =>
      traversal.Delivers (selection.answer store).ids) :
    ((store.transaction cached).traversal selection raw).Succeeds (store.Keeps cached)
      fun traversal => traversal.Delivers (selection.answer store).ids := by
  rw [Transaction.traversal]
  split
  · rename_i serves
    refine (result_succeeds serves delivers).bind fun result faithful => ?_
    refine (readView_succeeds faithful).bind ?_
    rintro view rfl
    exact .pure (Traversal.delivers_ofSet _)
  · exact delivers

theorem set_succeeds
    (delivers : raw.Succeeds (store.Keeps cached) fun traversal =>
      traversal.Delivers (selection.answer store).ids) :
    ((store.transaction cached).set selection raw).Succeeds (store.Keeps cached)
      (· = selection.answer store) := by
  rw [Transaction.set]
  split
  · rename_i serves
    exact (result_succeeds serves delivers).bind fun result faithful =>
      readView_succeeds faithful
  · refine delivers.bind fun traversal delivered => ?_
    refine (Action.Succeeds.collect delivered).bind ?_
    rintro ids rfl
    exact .pure (IdSet.ofList_ids _)

theorem openIndex_succeeds {keeps : ResultCache → Prop} (entries : List Entry) (kind : ScanKind) :
    (openIndex (fun _ => .ok entries) kind).Succeeds keeps (· = entries) := by
  have opened : (Action.ofExcept (.ok entries)).Succeeds keeps (· = entries) := .ofExcept rfl
  exact Action.Succeeds.enterOpening.bind fun _ _ => opened.bind fun _ same =>
    (Action.Succeeds.tell _).bind fun _ _ => .pure same

/-- The raw traversal of a selection delivers its answer. -/
theorem raw_succeeds (store : MemoryStore) (cached : Bool) (selection : Selection) :
    ((store.transaction cached).raw selection).Succeeds (store.Keeps cached) fun traversal =>
      traversal.Delivers (selection.answer store).ids := by
  induction selection with
  | ofType typeId =>
      refine (openIndex_succeeds _ _).bind ?_
      rintro entries rfl
      exact .pure (Traversal.delivers_ofEntities store typeId)
  | withLink typeId linkId =>
      refine (openIndex_succeeds _ _).bind ?_
      rintro entries rfl
      exact .pure (Traversal.delivers_ofSources store typeId linkId)
  | linkedTo typeId linkId target inductionHypothesis =>
      refine (set_succeeds inductionHypothesis).bind ?_
      rintro targets rfl
      split
      · rename_i noTargets
        refine .pure ?_
        rw [Selection.answer_linkedTo_of_isEmpty noTargets]
        exact Traversal.delivers_empty
      · refine (openIndex_succeeds _ _).bind ?_
        rintro entries rfl
        exact .pure (Traversal.delivers_ofJoin store typeId linkId (target.answer store))
  | union left right leftHypothesis rightHypothesis =>
      refine (traversal_succeeds leftHypothesis).bind fun leftTraversal leftDelivers => ?_
      refine (traversal_succeeds rightHypothesis).orRetire.bind
        fun rightTraversal rightDelivers => ?_
      exact .pure (Traversal.delivers_union leftDelivers rightDelivers)
  | inter left right leftHypothesis rightHypothesis =>
      refine (traversal_succeeds leftHypothesis).bind fun leftTraversal leftDelivers => ?_
      refine (traversal_succeeds rightHypothesis).orRetire.bind
        fun rightTraversal rightDelivers => ?_
      exact .pure (Traversal.delivers_intersection leftDelivers rightDelivers)

end Transaction

namespace Query

variable (store : MemoryStore) (cached : Bool)

theorem traverse_succeeds (query : Query) :
    (query.traverse (store.transaction cached)).Succeeds (store.Keeps cached) fun traversal =>
      traversal.Delivers (query.answer store).ids := by
  cases query with
  | empty => exact .pure Traversal.delivers_empty
  | select selection =>
      exact Transaction.traversal_succeeds (Transaction.raw_succeeds store cached selection)

theorem materialize_succeeds (query : Query) :
    (query.materialize (store.transaction cached)).Succeeds (store.Keeps cached)
      (· = (query.answer store).ids) :=
  (query.traverse_succeeds store cached).bind fun _ => .collect

theorem toSet_succeeds (query : Query) :
    (query.toSet (store.transaction cached)).Succeeds (store.Keeps cached)
      (· = query.answer store) := by
  cases query with
  | empty => exact .pure rfl
  | select selection =>
      exact Transaction.set_succeeds (Transaction.raw_succeeds store cached selection)

theorem kept_succeeds (selection : Selection) :
    (kept (store.transaction cached) selection).Succeeds (store.Keeps cached) fun found =>
      ∀ result ∈ found, result.ids = selection.answer store := by
  rw [kept]
  split
  · rename_i serves
    exact (Transaction.lookup_succeeds serves).mono fun found faithful result kept =>
      (faithful result kept).ids_eq
  · exact .pure nofun

theorem storeCount_succeeds {keeps : ResultCache → Prop} (typeId : TypeId) :
    (storeCount (store.transaction cached) typeId).Succeeds keeps
      (· = (store.idsOf typeId).size) :=
  (Action.Succeeds.tell _).bind fun _ _ => Action.Succeeds.enterCount.bind fun _ _ =>
    .ofExcept rfl

theorem probe_succeeds {keeps : ResultCache → Prop} {traversal : Traversal} {set : IdSet}
    (delivers : traversal.Delivers set.ids) :
    (probe traversal).Succeeds keeps (· = !set.isEmpty) := by
  rw [probe]
  rcases step : traversal.hasNext with ⟨answer, asked⟩
  have answered : answer = .ok !set.isEmpty := by
    have asking := Traversal.hasNext_of_delivers delivers
    rw [step] at asking
    exact asking
  rw [answered]
  exact (Action.Succeeds.retire _).bind fun _ _ => .ofExcept rfl

theorem isEmpty_succeeds (query : Query) :
    (query.isEmpty (store.transaction cached)).Succeeds (store.Keeps cached)
      (· = (query.answer store).isEmpty) := by
  cases query with
  | empty => exact .pure rfl
  | select selection =>
      refine (kept_succeeds store cached selection).bind fun found valid => ?_
      cases found with
      | some result =>
          refine .pure ?_
          rw [CachedResult.isEmpty, valid result rfl]
          rfl
      | none =>
          cases selection with
          | ofType typeId =>
              refine (storeCount_succeeds store cached typeId).bind ?_
              rintro size rfl
              refine .pure ?_
              show ((store.entitiesOf typeId).length == 0) = (store.entitiesOf typeId).isEmpty
              cases store.entitiesOf typeId <;> rfl
          | withLink | linkedTo | union | inter =>
              refine (Transaction.raw_succeeds store cached _).bind fun traversal delivers => ?_
              refine (probe_succeeds delivers).bind ?_
              rintro answer rfl
              exact .pure (Bool.not_not _)

/-- In an ascending list every identity is a run of its own. -/
theorem countRuns_of_ascending {ids : List EntityId} (ascending : ids.Pairwise (· < ·)) :
    countRuns ids = ids.length := by
  induction ids with
  | nil => rfl
  | cons first rest inductionHypothesis =>
      obtain ⟨headFirst, restAscending⟩ := List.pairwise_cons.1 ascending
      have counted := inductionHypothesis restAscending
      cases rest with
      | nil => rfl
      | cons second others =>
          have different : first ≠ second := by
            rintro rfl
            exact EntityId.lt_irrefl first (headFirst first List.mem_cons_self)
          rw [countRuns, if_neg different, counted]
          rfl

theorem count_succeeds (query : Query) :
    (query.count (store.transaction cached)).Succeeds (store.Keeps cached)
      (· = (query.answer store).size) := by
  cases query with
  | empty => exact .pure rfl
  | select selection =>
      cases selection with
      | ofType typeId =>
          refine (kept_succeeds store cached (.ofType typeId)).bind fun found valid => ?_
          cases found with
          | some result =>
              refine .pure ?_
              rw [CachedResult.size, valid result rfl]
              rfl
          | none => exact storeCount_succeeds store cached typeId
      | withLink | linkedTo | union | inter =>
          simp only [count]
          split
          · rename_i serves
            refine (Transaction.result_succeeds serves
              (Transaction.raw_succeeds store cached _)).bind fun result faithful => .pure ?_
            rw [CachedResult.size, faithful.ids_eq]
            rfl
          · refine (Transaction.raw_succeeds store cached _).bind fun traversal delivers => ?_
            refine (Action.Succeeds.collect delivers).bind ?_
            rintro ids rfl
            exact .pure (countRuns_of_ascending (IdSet.ascending _))

end Query

end EntityQuery
