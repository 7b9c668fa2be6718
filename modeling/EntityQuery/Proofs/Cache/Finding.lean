import EntityQuery.Proofs.Cache.Kept

/-!
# What stays in the cache

Which values are still found under their keys: one that was just written, one that was looked up,
and one that every visit keeps.  Nothing is said of the other keys, whose values may be lost to the
same operations.

For the result cache this means that a result which was reported as published is found, and that
looking a result up leaves it to be found again.
-/

namespace EntityQuery

/-! ## Finding a key -/

namespace Recency

variable {κ ν : Type} [DecidableEq κ] {key : κ} {value : ν} {entries : List (κ × ν)}

theorem find?_cons_self (key : κ) (value : ν) (entries : List (κ × ν)) :
    find? key ((key, value) :: entries) = some value := by
  simp [find?]

theorem find?_cons_of_ne {otherKey : κ} (different : otherKey ≠ key) (other : ν)
    (entries : List (κ × ν)) : find? key ((otherKey, other) :: entries) = find? key entries := by
  simp [find?, different]

/-- What was written is found, even if another entry had to leave. -/
theorem find?_put (capacity : Nat) (key : κ) (value : ν) (entries : List (κ × ν)) :
    find? key (put capacity key value entries) = some value := by
  rw [put]
  split
  · exact find?_cons_self key value _
  · split
    · exact find?_cons_self key value _
    · exact find?_cons_self key value _

theorem find?_promote (key : κ) (entries : List (κ × ν)) :
    find? key (promote key entries) = find? key entries := by
  rw [promote]
  split
  · rename_i value found
    rw [found]
    exact find?_cons_self key value _
  · rfl

/-- A value that its visit never drops is found as the visit leaves it. -/
theorem find?_revise {σ : Type} {visit : κ → ν → σ → Option ν × σ}
    (found : find? key entries = some value) (stays : ∀ state, (visit key value state).1 ≠ none)
    (state : σ) :
    ∃ before newValue, (visit key value before).1 = some newValue ∧
      find? key (revise visit entries state).1 = some newValue := by
  induction entries generalizing state with
  | nil => cases found
  | cons head rest inductionHypothesis =>
      obtain ⟨headKey, headValue⟩ := head
      by_cases same : headKey = key
      · subst same
        rw [find?_cons_self] at found
        cases found
        obtain ⟨newValue, visited⟩ := Option.ne_none_iff_exists'.1 (stays state)
        refine ⟨state, newValue, visited, ?_⟩
        simp only [revise, visited]
        exact find?_cons_self headKey newValue _
      · rw [find?_cons_of_ne same] at found
        obtain ⟨before, newValue, visited, later⟩ :=
          inductionHypothesis found (visit headKey headValue state).2
        refine ⟨before, newValue, visited, ?_⟩
        rw [revise]
        dsimp only
        split
        · rw [find?_cons_of_ne same]
          exact later
        · exact later

end Recency

namespace PartitionedCache

variable {κ ν : Type}

/-- What a stateful visit of a list leaves at an index is a visit of what was there. -/
theorem getElem?_mapM {σ α β : Type} (visit : α → StateM σ β) (items : List α) (index : Nat)
    (state : σ) :
    ∃ before, ((items.mapM visit).run state).1[index]? =
      items[index]?.map fun item => ((visit item).run before).1 := by
  induction items generalizing index state with
  | nil => exact ⟨state, rfl⟩
  | cons head rest inductionHypothesis =>
      rw [List.mapM_cons]
      cases index with
      | zero => exact ⟨state, rfl⟩
      | succ index => exact inductionHypothesis index ((visit head).run state).2

/-- Every partition is visited by itself. -/
theorem getElem?_revise {σ : Type} (cache : PartitionedCache κ ν)
    (visit : κ → ν → σ → Option ν × σ) (state : σ) (index : Nat) :
    ∃ before, (cache.revise visit state).1.partitions[index]? =
      cache.partitions[index]?.map fun partition => ((partition.revise visit).run before).1 := by
  have listed := toList_mapM (Partition.revise visit) cache.partitions state
  obtain ⟨before, visited⟩ := getElem?_mapM (Partition.revise visit) cache.partitions.toList
    index state
  rw [← listed, Vector.getElem?_toList, Vector.getElem?_toList] at visited
  exact ⟨before, visited⟩

theorem entries_revise {σ : Type} (cache : PartitionedCache κ ν)
    (visit : κ → ν → σ → Option ν × σ) (state : σ) (index : Nat) (inRange : index < cache.count) :
    ∃ before, (cache.revise visit state).1.partitions[index].entries =
      (Recency.revise visit cache.partitions[index].entries before).1 := by
  obtain ⟨before, visited⟩ := cache.getElem?_revise visit state index
  have inRangeAfter : index < (cache.revise visit state).1.count := inRange
  rw [Vector.getElem?_eq_getElem inRange, Vector.getElem?_eq_getElem inRangeAfter] at visited
  refine ⟨before, ?_⟩
  rw [← Partition.entries_revise]
  exact congrArg Partition.entries (Option.some.inj visited)

variable [Routed κ] {cache : PartitionedCache κ ν} {key : κ} {value : ν}

/-- A touch changes what the partition of its key holds. -/
theorem entriesFor_touch (cache : PartitionedCache κ ν) (key : κ)
    (change : Option (List (κ × ν)) → Option (List (κ × ν))) :
    ∃ content, content.getD [] = cache.entriesFor key ∧
      (cache.touch key change).entriesFor key = (change content).getD [] := by
  refine ⟨cache.partitions[cache.indexOf key].resident, rfl, ?_⟩
  have written : (cache.partitions.set (cache.indexOf key)
      ⟨change cache.partitions[cache.indexOf key].resident, cache.clock⟩)[cache.indexOf key] =
        ⟨change cache.partitions[cache.indexOf key].resident, cache.clock⟩ :=
    Vector.getElem_set_self _
  exact congrArg Partition.entries written

/-- The entries of a key are visited in its partition alone. -/
theorem entriesFor_revise {σ : Type} (cache : PartitionedCache κ ν) (key : κ)
    (visit : κ → ν → σ → Option ν × σ) (state : σ) :
    ∃ before, (cache.revise visit state).1.entriesFor key =
      (Recency.revise visit (cache.entriesFor key) before).1 :=
  cache.entries_revise visit state (cache.indexOf key) (cache.indexOf key).isLt

variable [DecidableEq κ]

theorem find?_insertIf {accepts : Option ν → Bool} {after : PartitionedCache κ ν}
    (written : cache.insertIf key value accepts = (true, after)) :
    after.find? key = some value := by
  rw [insertIf] at written
  split at written
  · cases written
    obtain ⟨content, _, touched⟩ := cache.entriesFor_touch key fun content =>
      some (Recency.put cache.chunkSize key value (content.getD []))
    rw [insert, find?, touched]
    exact Recency.find?_put cache.chunkSize key value _
  · cases written

theorem find?_ofCapacity (capacity : Nat) (key : κ) :
    (ofCapacity capacity : PartitionedCache κ ν).find? key = none := by
  rw [Option.eq_none_iff_forall_ne_some]
  intro value found
  exact notMem_entries_ofCapacity capacity (mem_of_find? found)

theorem find?_tryGet (cache : PartitionedCache κ ν) (key : κ) :
    (cache.tryGet key).2.find? key = cache.find? key := by
  obtain ⟨content, same, touched⟩ := cache.entriesFor_touch key (Option.map (Recency.promote key))
  show Recency.find? key ((cache.touch key (Option.map (Recency.promote key))).entriesFor key) = _
  rw [touched, find?, ← same]
  cases content with
  | none => rfl
  | some entries => exact Recency.find?_promote key entries

theorem find?_revise {σ : Type} {visit : κ → ν → σ → Option ν × σ}
    (found : cache.find? key = some value) (stays : ∀ state, (visit key value state).1 ≠ none)
    (state : σ) :
    ∃ before newValue, (visit key value before).1 = some newValue ∧
      (cache.revise visit state).1.find? key = some newValue := by
  obtain ⟨before, revised⟩ := cache.entriesFor_revise key visit state
  rw [find?, revised]
  exact Recency.find?_revise found stays before

end PartitionedCache

/-! ## The result cache -/

/-- A result that serves the readers of a key at a snapshot, and shows each of them the same. -/
structure CachedResult.Serves (result : CachedResult) (key : QueryKey) (snapshot : Nat)
    (ids : IdSet) : Prop where
  own : result.key = key
  notNewer : result.version ≤ snapshot
  ids_eq : result.ids = ids
  coherent : result.Coherent

theorem CachedResult.Serves.toSet {result : CachedResult} {key : QueryKey} {snapshot : Nat}
    {ids : IdSet} (serves : result.Serves key snapshot ids) :
    result.toSet.2.Serves key snapshot ids := by
  have coherent := serves.coherent.toSet
  obtain ⟨view, after⟩ := result.toSet_after
  rw [after] at coherent ⊢
  exact ⟨serves.own, serves.notNewer, serves.ids_eq, coherent⟩

namespace ResultCache

variable {cache : ResultCache} {key : QueryKey} {snapshot : Nat}

/-- A result is kept that serves the readers of a key at a snapshot. -/
structure Serves (cache : ResultCache) (key : QueryKey) (snapshot : Nat) (ids : IdSet) : Prop where
  enabled : cache.config.enabled = true
  kept : ∃ result, cache.results.find? key = some result ∧ result.Serves key snapshot ids

/-- What is kept for a reader is found by a look-up, and is kept further. -/
theorem Serves.lookup {ids : IdSet} (serves : cache.Serves key snapshot ids) :
    ∃ result after, result.Serves key snapshot ids ∧ after.Serves key snapshot ids ∧
      cache.lookup key snapshot = (some result, after, .event (.lookup key.kind .hit)) := by
  obtain ⟨enabled, result, found, serving⟩ := serves
  have looked : (cache.results.tryGet key).1 = some result := found
  refine ⟨result, { cache with results := (cache.results.tryGet key).2 }, serving, ?_, ?_⟩
  · exact ⟨enabled, result, (cache.results.find?_tryGet key).trans found, serving⟩
  · rw [ResultCache.lookup, if_pos enabled]
    simp only [looked, if_neg (Nat.not_lt.2 serving.notNewer)]

/-- What is found after a change of a result: the changed one, if it is the one that was found. -/
theorem find?_replaceKept {result : CachedResult} (found : cache.results.find? key = some result)
    (changed : CachedResult) :
    (cache.replaceKept changed).results.find? key =
      some (if key = changed.key ∧ result.serial = changed.serial then changed else result) := by
  obtain ⟨_, left, visited, foundAfter⟩ :=
    PartitionedCache.find?_revise found (replaceBy_ne_none changed key result) ()
  rw [replaceBy] at visited
  split at visited
  · rename_i same
    rw [if_pos same]
    exact foundAfter.trans visited.symm
  · rename_i different
    rw [if_neg different]
    exact foundAfter.trans visited.symm

/-- A reader leaves the result that it reads, with the view that it was shown. -/
theorem Serves.replaceKept {ids : IdSet} {changed : CachedResult}
    (serves : cache.Serves key snapshot ids) (changedServes : changed.Serves key snapshot ids) :
    (cache.replaceKept changed).Serves key snapshot ids := by
  obtain ⟨enabled, result, found, serving⟩ := serves
  refine ⟨enabled, _, find?_replaceKept found changed, ?_⟩
  split
  · exact changedServes
  · exact serving

theorem find?_offer {materialized : Nat} {result : CachedResult}
    (published : (cache.offer materialized result).1 = .published) :
    (cache.offer materialized result).2.1.config.enabled = true ∧
      (cache.offer materialized result).2.1.results.find? result.key = some result := by
  rw [offer] at published ⊢
  cases enabled : cache.config.enabled with
  | false =>
      rw [enabled] at published
      cases published
  | true =>
      rw [enabled] at published
      simp only [Bool.not_true, Bool.false_eq_true, if_false] at published ⊢
      split at published
      · cases published
      · rename_i fits
        rcases written : cache.results.insertIf result.key result (cache.admits result.version)
          with ⟨stored, results⟩
        rw [written] at published
        cases stored with
        | false => cases published
        | true =>
            rw [if_neg fits]
            exact ⟨enabled, PartitionedCache.find?_insertIf written⟩

/-- A result that was reported as published is kept. -/
theorem find?_publish {ids : List EntityId}
    (published : (cache.publish key snapshot ids).2.2 =
      .event (.materialize key.kind ids.length .published)) :
    (cache.publish key snapshot ids).2.1.config.enabled = true ∧
      (cache.publish key snapshot ids).2.1.results.find? key =
        some (.ofIds key snapshot ids cache.nextSerial) := by
  have told := congrArg Journal.events published
  simp only [publish, Journal.event, List.cons.injEq, Event.materialize.injEq] at told
  exact find?_offer told.1.2.2

/-- An offer that is admitted is written under its key. -/
theorem offer_of_admits {materialized : Nat} {result : CachedResult}
    (enabled : cache.config.enabled = true) (fits : materialized ≤ cache.config.maxResultSize)
    (admitted : cache.admits result.version (cache.results.find? result.key) = true) :
    cache.offer materialized result =
      (.published, { cache with results := (cache.results.insert result.key result).2 }, []) := by
  simp only [offer, enabled, Bool.not_true, Bool.false_eq_true, if_false,
    if_neg (Nat.not_lt.2 fits), PartitionedCache.insertIf, if_pos admitted, if_true]

/-- A result that is neither too large nor too old is published. -/
theorem publish_of_admissible {ids : List EntityId} (enabled : cache.config.enabled = true)
    (fits : ids.length ≤ cache.config.maxResultSize) (notOlder : cache.latestVersion ≤ snapshot)
    (unrivalled : ∀ existing ∈ cache.results.find? key, existing.version ≤ snapshot) :
    (cache.publish key snapshot ids).2.2 =
      .event (.materialize key.kind ids.length .published) := by
  have admitted : cache.admits snapshot (cache.results.find? key) = true :=
    admits_iff.2 ⟨notOlder, unrivalled⟩
  let numbered : ResultCache := { cache with nextSerial := cache.nextSerial + 1 }
  have offered : numbered.offer ids.length (.ofIds key snapshot ids cache.nextSerial) =
      (.published, _, []) := offer_of_admits enabled fits admitted
  rw [publish, offered]
  rfl

end ResultCache

end EntityQuery
