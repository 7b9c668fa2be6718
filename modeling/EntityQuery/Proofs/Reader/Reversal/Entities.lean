import EntityQuery.Proofs.Reader.Moves
import EntityQuery.Store.Memory

/-!
# Reading the entities of a type backwards

The entities of a type are read from their index or from their cached set.  Both readers pass the
same members by the same moves, and both can be asked ahead.  They differ in one point.  The probe
of the index remembers that nothing more was found, and never moves forwards again; the walk of the
set has no such memory.  So they reply alike up to the end, past it, and stepping back from it, but
not to moves forwards behind that.
-/

namespace EntityQuery

namespace EntityWalk

/-- The record of an entity in the index of its type. -/
def recordOf (id : EntityId) : Record := ⟨Layout.encodeLocalId id.localId, []⟩

variable {typeId : TypeId} {set : IdSet} {walk : EntityWalk} {listed : SetWalk}

theorem decode_map_recordOf {found : Option EntityId} (ofType : ∀ id ∈ found, id.typeId = typeId) :
    decode typeId (found.map recordOf) = .ok found := by
  cases found with
  | none => rfl
  | some id =>
      have decoded := Layout.decodeEntityKey_encodeLocalId id
      rw [ofType id rfl] at decoded
      simp [decode, recordOf, decoded, Except.map]

/-- Both walks have passed the same members, and both or neither were asked about the last one. -/
def Abreast (typeId : TypeId) (set : IdSet) (walk : EntityWalk) (listed : SetWalk) : Prop :=
  walk.typeId = typeId ∧ ∃ passed asked, passed ≤ set.size ∧ (asked = true → 0 < passed) ∧
    walk.probe.Stands (set.ids.map recordOf) passed asked ∧
      listed = SetWalk.standing set passed asked

/-- Both walks are past the last member and have said so. -/
def AtEnd (typeId : TypeId) (set : IdSet) (walk : EntityWalk) (listed : SetWalk) : Prop :=
  walk.typeId = typeId ∧ walk.probe.Ended (set.ids.map recordOf) (set.size + 1) ∧
    ∃ probed, listed = SetWalk.standing set (set.size + 1) probed

/-- Both walks have passed the same members. -/
def Level (typeId : TypeId) (set : IdSet) (walk : EntityWalk) (listed : SetWalk) : Prop :=
  walk.typeId = typeId ∧ walk.probe.held = true ∧ ∃ passed probed,
    walk.probe.cursor.Stands (set.ids.map recordOf) passed ∧
      listed = SetWalk.standing set passed probed

theorem Abreast.level (abreast : Abreast typeId set walk listed) :
    Level typeId set walk listed := by
  obtain ⟨sameType, passed, asked, _, _, stands, same⟩ := abreast
  exact ⟨sameType, stands.held, passed, asked, stands.cursor, same⟩

theorem AtEnd.level (atEnd : AtEnd typeId set walk listed) : Level typeId set walk listed := by
  obtain ⟨sameType, ended, probed, same⟩ := atEnd
  exact ⟨sameType, ended.held, _, probed, ended.cursor, same⟩

/-- Asked ahead, both walks find the next member, or both come to the end. -/
theorem Abreast.ask (abreast : Abreast typeId set walk listed) :
    (∃ after passed, walk.probe.hasNext = (.ok true, after) ∧ passed < set.size ∧
        after.Stands (set.ids.map recordOf) (passed + 1) true ∧
        listed.hasNext = (.ok true, SetWalk.standing set (passed + 1) true) ∧
        listed.next = (.ok set.ids[passed]?, SetWalk.standing set (passed + 1) false)) ∨
      ∃ after, walk.probe.hasNext = (.ok false, after) ∧
        after.Ended (set.ids.map recordOf) (set.size + 1) ∧
        listed.hasNext = (.ok false, SetWalk.standing set (set.size + 1) true) ∧
        listed.next = (.ok none, SetWalk.standing set (set.size + 1) false) := by
  obtain ⟨_, passed, asked, inside, positive, stands, rfl⟩ := abreast
  have records : (set.ids.map recordOf).length = set.size := List.length_map _
  have present (rank : Nat) (inRange : rank < set.size) : set.ids[rank]?.isSome = true := by
    rw [List.getElem?_eq_getElem inRange]
    rfl
  cases asked with
  | true =>
      obtain ⟨rank, rfl⟩ := Nat.exists_eq_succ_of_ne_zero (Nat.pos_iff_ne_zero.1 (positive rfl))
      refine .inl ⟨walk.probe, rank, Probe.hasNext_of_asked stands, inside, stands, ?_, rfl⟩
      rw [SetWalk.hasNext_probed, present rank inside]
  | false =>
      rcases Nat.lt_or_eq_of_le inside with inRange | rfl
      · obtain ⟨after, asked, standsAfter⟩ := Probe.hasNext_of_lt stands (records ▸ inRange)
        refine .inl ⟨after, passed, asked, inRange, standsAfter, ?_, ?_⟩
        · rw [SetWalk.hasNext_standing, Nat.min_eq_left inside, present passed inRange]
        · rw [SetWalk.next_standing, Nat.min_eq_left inside]
      · obtain ⟨after, asked, ended⟩ := Probe.hasNext_of_le stands (Nat.le_of_eq records)
        have absent : set.ids[set.size]? = none := List.getElem?_eq_none (Nat.le_refl _)
        rw [records] at ended
        refine .inr ⟨after, asked, ended, ?_, ?_⟩
        · rw [SetWalk.hasNext_standing, Nat.min_self, absent]
          rfl
        · rw [SetWalk.next_standing, Nat.min_self, absent]

theorem Abreast.hasNext (abreast : Abreast typeId set walk listed) :
    ∃ answer walkAfter listedAfter, entityReader.hasNext walk = (.ok answer, walkAfter) ∧
      setReader.hasNext listed = (.ok answer, listedAfter) ∧
      if answer then Abreast typeId set walkAfter listedAfter
      else AtEnd typeId set walkAfter listedAfter := by
  have sameType := abreast.1
  have asking {answer : Bool} {after : Probe} (asked : walk.probe.hasNext = (.ok answer, after)) :
      entityReader.hasNext walk = (.ok answer, { walk with probe := after }) := by
    show walk.answer walk.probe.hasNext = _
    rw [asked]
    rfl
  rcases abreast.ask with ⟨after, passed, asked, inRange, stands, listedAsked, _⟩ |
    ⟨after, asked, ended, listedAsked, _⟩
  · exact ⟨true, _, _, asking asked, listedAsked, sameType, passed + 1, true, inRange,
      fun _ => Nat.succ_pos _, stands, rfl⟩
  · exact ⟨false, _, _, asking asked, listedAsked, sameType, ended, true, rfl⟩

theorem Abreast.next (abreast : Abreast typeId set walk listed)
    (ofType : ∀ id ∈ set.ids, id.typeId = typeId) :
    ∃ found walkAfter listedAfter, entityReader.next walk = (.ok found, walkAfter) ∧
      setReader.next listed = (.ok found, listedAfter) ∧
      if found.isSome then Abreast typeId set walkAfter listedAfter
      else AtEnd typeId set walkAfter listedAfter := by
  have sameType := abreast.1
  have reading {found : Option EntityId} {after : Probe} (member : ∀ id ∈ found, id ∈ set.ids)
      (advanced : walk.probe.advance = (.ok (found.map recordOf), after)) :
      entityReader.next walk = (.ok found, { walk with probe := after }) := by
    show walk.next = _
    rw [EntityWalk.next, advanced, sameType]
    exact congrArg (·, _) (decode_map_recordOf fun id read => ofType id (member id read))
  rcases abreast.ask with ⟨after, passed, asked, inRange, stands, _, listedRead⟩ |
    ⟨after, asked, ended, _, listedRead⟩
  · have present : set.ids[passed]? = some set.ids[passed] := List.getElem?_eq_getElem inRange
    have standing : standingOn (set.ids.map recordOf) (passed + 1) =
        some (recordOf set.ids[passed]) := by
      rw [standingOn_map, standingOn, present]
      rfl
    obtain ⟨taken, advanced, standsTaken⟩ := Probe.advance_of_hasNext asked stands standing
    rw [present] at listedRead
    refine ⟨some set.ids[passed], _, _, reading ?_ advanced, listedRead, sameType, passed + 1,
      false, inRange, fun _ => Nat.succ_pos passed, standsTaken, rfl⟩
    rintro id ⟨⟩
    exact List.getElem_mem inRange
  · have nothing : ∀ id ∈ (none : Option EntityId), id ∈ set.ids := by
      intro id absent
      cases absent
    exact ⟨none, _, _, reading nothing (Probe.advance_of_end asked), listedRead, sameType, ended,
      false, rfl⟩

/-- A move forwards is replied to alike; if it is told that nothing is left, both are at the end. -/
theorem Abreast.forward (abreast : Abreast typeId set walk listed)
    (ofType : ∀ id ∈ set.ids, id.typeId = typeId) {move : Move} (forwards : move ≠ .last) :
    (entityReader.move walk move).1 = (setReader.move listed move).1 ∧
      if move.reportsEnd (setReader.move listed move).1 then
        AtEnd typeId set (entityReader.move walk move).2 (setReader.move listed move).2
      else
        Abreast typeId set (entityReader.move walk move).2 (setReader.move listed move).2 := by
  cases move with
  | last => exact absurd rfl forwards
  | hasNext =>
      obtain ⟨answer, walkAfter, listedAfter, step, listedStep, behind⟩ := abreast.hasNext
      rw [Reader.move, Reader.move, step, listedStep]
      cases answer <;> exact ⟨rfl, behind⟩
  | next =>
      obtain ⟨found, walkAfter, listedAfter, step, listedStep, behind⟩ := abreast.next ofType
      rw [Reader.move, Reader.move, step, listedStep]
      cases found <;> exact ⟨rfl, behind⟩

theorem AtEnd.forward (atEnd : AtEnd typeId set walk listed) {move : Move}
    (forwards : move ≠ .last) :
    (entityReader.move walk move).1 = (setReader.move listed move).1 ∧
      AtEnd typeId set (entityReader.move walk move).2 (setReader.move listed move).2 := by
  obtain ⟨sameType, ended, probed, rfl⟩ := atEnd
  have asked := Probe.hasNext_of_ended ended
  have absent : set.ids[set.size]? = none := List.getElem?_eq_none (Nat.le_refl _)
  have beyond : min (set.size + 1) set.size = set.size := Nat.min_eq_right (Nat.le_succ _)
  cases move with
  | last => exact absurd rfl forwards
  | hasNext =>
      have listedStep : setReader.hasNext (SetWalk.standing set (set.size + 1) probed) =
          (.ok false, SetWalk.standing set (set.size + 1) true) := by
        cases probed with
        | true => exact (SetWalk.hasNext_probed set set.size).trans (by rw [absent]; rfl)
        | false =>
            exact (SetWalk.hasNext_standing set (set.size + 1)).trans (by rw [beyond, absent]; rfl)
      have step : entityReader.hasNext walk = (.ok false, walk) := by
        show walk.answer walk.probe.hasNext = _
        rw [asked]
        rfl
      rw [Reader.move, Reader.move, step, listedStep]
      exact ⟨rfl, sameType, ended, true, rfl⟩
  | next =>
      have listedStep : setReader.next (SetWalk.standing set (set.size + 1) probed) =
          (.ok none, SetWalk.standing set (set.size + 1) false) := by
        cases probed with
        | true => exact (SetWalk.next_probed set set.size).trans (by rw [absent])
        | false => exact (SetWalk.next_standing set (set.size + 1)).trans (by rw [beyond, absent])
      have step : entityReader.next walk = (.ok none, walk) := by
        show walk.next = _
        rw [EntityWalk.next, Probe.advance_of_end asked]
        rfl
      rw [Reader.move, Reader.move, step, listedStep]
      exact ⟨rfl, sameType, ended, false, rfl⟩

/-- Stepping back is replied to alike, and keeps the probe as it is but for its answer. -/
theorem Level.back (level : Level typeId set walk listed)
    (ofType : ∀ id ∈ set.ids, id.typeId = typeId) :
    ∃ found cursor passed, passed ≤ set.size ∧ cursor.Stands (set.ids.map recordOf) passed ∧
      entityReader.last walk =
        (.ok found, { walk with probe := { walk.probe with cursor, answer := none } }) ∧
      setReader.last listed = (.ok found, SetWalk.standing set passed false) := by
  obtain ⟨sameType, held, passed, probed, stands, rfl⟩ := level
  obtain ⟨cursor, stepped, standsBack⟩ := Probe.stepBack_of_stands held stands
  have records : (set.ids.map recordOf).length = set.size := List.length_map _
  rw [records] at stepped standsBack
  refine ⟨standingOn set.ids (steppedBack set.size passed), cursor, steppedBack set.size passed,
    steppedBack_le set.size passed, standsBack, ?_, SetWalk.last_standing set passed probed⟩
  show walk.last = _
  rw [EntityWalk.last, stepped, standingOn_map, sameType]
  exact congrArg (·, _) (decode_map_recordOf fun id read => ofType id (mem_of_standingOn read))

theorem Abreast.back (abreast : Abreast typeId set walk listed)
    (ofType : ∀ id ∈ set.ids, id.typeId = typeId) :
    (entityReader.move walk .last).1 = (setReader.move listed .last).1 ∧
      Abreast typeId set (entityReader.move walk .last).2 (setReader.move listed .last).2 := by
  obtain ⟨found, cursor, passed, inside, stands, step, listedStep⟩ := abreast.level.back ofType
  obtain ⟨sameType, _, _, _, _, before, _⟩ := abreast
  rw [Reader.move, Reader.move, step, listedStep]
  exact ⟨rfl, sameType, passed, false, inside, nofun,
    ⟨before.held, stands, rfl, before.unexhausted⟩, rfl⟩

/-! ### Runs -/

/-- While something is left, every move is replied to alike. -/
theorem Abreast.replies (abreast : Abreast typeId set walk listed)
    (ofType : ∀ id ∈ set.ids, id.typeId = typeId) {moves : List Move}
    (continues : setReader.continues moves listed = true) :
    entityReader.replies moves walk = setReader.replies moves listed ∧
      Abreast typeId set (entityReader.after moves walk) (setReader.after moves listed) := by
  have run := Reader.replies_eq_of_related entityReader setReader
    (fun moves walk listed =>
      Abreast typeId set walk listed ∧ setReader.continues moves listed = true)
    ?_ ⟨abreast, continues⟩
  · exact ⟨run.1, run.2.1⟩
  · rintro move rest walk listed ⟨abreast, continues⟩
    rw [Reader.continues, Bool.and_eq_true, Bool.not_eq_true'] at continues
    obtain ⟨continuing, further⟩ := continues
    by_cases backwards : move = .last
    · subst backwards
      obtain ⟨alike, behind⟩ := abreast.back ofType
      exact ⟨alike, behind, further⟩
    · obtain ⟨alike, behind⟩ := abreast.forward ofType backwards
      rw [continuing] at behind
      exact ⟨alike, behind, further⟩

/-- Moves forwards are replied to alike, also past the end. -/
theorem Abreast.replies_forward (abreast : Abreast typeId set walk listed)
    (ofType : ∀ id ∈ set.ids, id.typeId = typeId) {moves : List Move}
    (forwards : ∀ move ∈ moves, move ≠ .last) :
    entityReader.replies moves walk = setReader.replies moves listed ∧
      Level typeId set (entityReader.after moves walk) (setReader.after moves listed) := by
  have run := Reader.replies_eq_of_related entityReader setReader
    (fun moves walk listed =>
      (Abreast typeId set walk listed ∨ AtEnd typeId set walk listed) ∧
        ∀ move ∈ moves, move ≠ .last)
    ?_ ⟨.inl abreast, forwards⟩
  · exact ⟨run.1, run.2.1.elim Abreast.level AtEnd.level⟩
  · rintro move rest walk listed ⟨abreast | atEnd, forwards⟩
    · obtain ⟨alike, behind⟩ := abreast.forward ofType (forwards move List.mem_cons_self)
      refine ⟨alike, ?_, fun other member => forwards other (List.mem_cons_of_mem move member)⟩
      split at behind
      · exact .inr behind
      · exact .inl behind
    · obtain ⟨alike, behind⟩ := atEnd.forward (forwards move List.mem_cons_self)
      exact ⟨alike, .inr behind, fun other member =>
        forwards other (List.mem_cons_of_mem move member)⟩

/-- Moves backwards are replied to alike from wherever both walks have passed the same members. -/
theorem Level.replies_back (level : Level typeId set walk listed)
    (ofType : ∀ id ∈ set.ids, id.typeId = typeId) {moves : List Move}
    (backwards : ∀ move ∈ moves, move = .last) :
    entityReader.replies moves walk = setReader.replies moves listed := by
  have run := Reader.replies_eq_of_related entityReader setReader
    (fun moves walk listed => Level typeId set walk listed ∧ ∀ move ∈ moves, move = .last)
    ?_ ⟨level, backwards⟩
  · exact run.1
  · rintro move rest walk listed ⟨level, backwards⟩
    obtain ⟨found, cursor, passed, _, stands, step, listedStep⟩ := level.back ofType
    obtain rfl := backwards move List.mem_cons_self
    rw [Reader.move, Reader.move, step, listedStep]
    exact ⟨rfl, ⟨level.1, level.2.1, passed, false, stands, rfl⟩,
      fun other member => backwards other (List.mem_cons_of_mem _ member)⟩

/--
The entities of a type are read back and forth alike from their index and from their set: up to the
first report that nothing is left, in further moves forwards, and in moves backwards behind these.
-/
theorem typeScan_replies_eq_setReader (ofType : ∀ id ∈ set.ids, id.typeId = typeId)
    {before ahead back : List Move}
    (continues : setReader.continues before (SetWalk.ofSet set) = true)
    (forwards : ∀ move ∈ ahead, move ≠ .last) (backwards : ∀ move ∈ back, move = .last) :
    entityReader.replies (before ++ ahead ++ back)
        (ofEntries typeId (set.ids.map MemoryStore.entityEntry)) =
      setReader.replies (before ++ ahead ++ back) (SetWalk.ofSet set) := by
  have entries : set.ids.map MemoryStore.entityEntry = (set.ids.map recordOf).map .record := by
    rw [List.map_map]
    rfl
  have start : Abreast typeId set (ofEntries typeId (set.ids.map MemoryStore.entityEntry))
      (SetWalk.ofSet set) := by
    refine ⟨rfl, 0, false, Nat.zero_le _, nofun, ?_, rfl⟩
    rw [ofEntries, entries]
    exact Probe.stands_ofEntries _
  obtain ⟨sameBefore, abreast⟩ := start.replies ofType continues
  obtain ⟨sameAhead, level⟩ := abreast.replies_forward ofType forwards
  have sameBack := level.replies_back ofType backwards
  simp only [Reader.replies_append, Reader.after_append, sameBefore, sameAhead, sameBack]

theorem typeScan_replies_past_end :
    setReader.continues [.next, .hasNext, .last] (SetWalk.ofSet (.ofList [⟨1, 1⟩, ⟨1, 2⟩])) =
        true ∧
      entityReader.replies
          [.next, .hasNext, .last, .next, .next, .next, .hasNext, .last, .last, .last]
          (ofEntries 1 ((IdSet.ofList [⟨1, 1⟩, ⟨1, 2⟩]).ids.map MemoryStore.entityEntry)) =
        setReader.replies
          [.next, .hasNext, .last, .next, .next, .next, .hasNext, .last, .last, .last]
          (SetWalk.ofSet (.ofList [⟨1, 1⟩, ⟨1, 2⟩])) := by
  have continues : setReader.continues [.next, .hasNext, .last]
      (SetWalk.ofSet (.ofList [⟨1, 1⟩, ⟨1, 2⟩])) = true := by decide
  have forwards : ∀ move ∈ [Move.next, .next, .next, .hasNext], move ≠ .last := by decide
  have backwards : ∀ move ∈ [Move.last, .last, .last], move = .last := by decide
  exact ⟨continues, typeScan_replies_eq_setReader (by decide) continues forwards backwards⟩

/--
The probe of an index does not forget that nothing more was found, and the walk of a set does.
Stepped back from the end and moved forwards again, only the walk of the set goes on.
-/
theorem typeScan_replies_ne_setReader_behind_end :
    ¬ ∀ (typeId : TypeId) (set : IdSet), (∀ id ∈ set.ids, id.typeId = typeId) →
      ∀ moves : List Move,
        entityReader.replies moves (ofEntries typeId (set.ids.map MemoryStore.entityEntry)) =
          setReader.replies moves (SetWalk.ofSet set) := by
  intro alike
  have sameReplies := alike 1 (.ofList [⟨1, 1⟩, ⟨1, 2⟩]) (by decide)
    [.next, .next, .next, .last, .last, .next]
  exact absurd (congrArg (List.map Except.toOption) sameReplies) (by decide)

end EntityWalk

end EntityQuery
