import EntityQuery.Reader.Traversal

/-!
# Moving readers back and forth

A reader can be asked ahead, read forwards and stepped backwards in any order.  This module says
what a probed cursor and the reader of a set reply to one such move.  Both count how many of their
items they have passed: none before the first item, and one more than there are past the end.  A
move forwards passes one item more, a move backwards one less, and a move backwards from either end
arrives at the last item.

Two readers reply alike to a run of moves if a relation between their states says so of every single
move and is kept by it.
-/

namespace EntityQuery

/-- A call that moves a reader. -/
inductive Move where
  | hasNext
  | next
  | last
deriving DecidableEq, Repr

/-- Whether the reply to a move forwards is that nothing is left. -/
def Move.reportsEnd : Move → Except QueryError ReaderReply → Bool
  | .hasNext, .ok (.flag false) => true
  | .next, .ok (.identity none) => true
  | _, _ => false

namespace Reader

variable {σ τ : Type}

def move (reader : Reader σ) (state : σ) : Move → Except QueryError ReaderReply × σ
  | .hasNext => ((reader.hasNext state).1.map .flag, (reader.hasNext state).2)
  | .next => ((reader.next state).1.map .identity, (reader.next state).2)
  | .last => ((reader.last state).1.map .identity, (reader.last state).2)

/-- The replies to moves, one after the other. -/
def replies (reader : Reader σ) : List Move → σ → List (Except QueryError ReaderReply)
  | [], _ => []
  | move :: rest, state =>
      (reader.move state move).1 :: reader.replies rest (reader.move state move).2

/-- The state behind moves. -/
def after (reader : Reader σ) : List Move → σ → σ
  | [], state => state
  | move :: rest, state => reader.after rest (reader.move state move).2

/-- Whether no move forwards is told that nothing is left. -/
def continues (reader : Reader σ) : List Move → σ → Bool
  | [], _ => true
  | move :: rest, state =>
      !move.reportsEnd (reader.move state move).1
        && reader.continues rest (reader.move state move).2

theorem replies_append (reader : Reader σ) (first second : List Move) (state : σ) :
    reader.replies (first ++ second) state =
      reader.replies first state ++ reader.replies second (reader.after first state) := by
  induction first generalizing state with
  | nil => rfl
  | cons move rest inductionHypothesis => exact congrArg (_ :: ·) (inductionHypothesis _)

theorem after_append (reader : Reader σ) (first second : List Move) (state : σ) :
    reader.after (first ++ second) state = reader.after second (reader.after first state) := by
  induction first generalizing state with
  | nil => rfl
  | cons move rest inductionHypothesis => exact inductionHypothesis _

/-- Related states reply alike to a run of moves if they do so to every move of it. -/
theorem replies_eq_of_related (left : Reader σ) (right : Reader τ)
    (related : List Move → σ → τ → Prop)
    (step : ∀ move rest first second, related (move :: rest) first second →
      (left.move first move).1 = (right.move second move).1 ∧
        related rest (left.move first move).2 (right.move second move).2)
    {moves : List Move} {first : σ} {second : τ} (start : related moves first second) :
    left.replies moves first = right.replies moves second ∧
      related [] (left.after moves first) (right.after moves second) := by
  induction moves generalizing first second with
  | nil => exact ⟨rfl, start⟩
  | cons move rest inductionHypothesis =>
      obtain ⟨alike, further⟩ := step move rest first second start
      obtain ⟨repliesAlike, final⟩ := inductionHypothesis further
      exact ⟨List.cons_eq_cons.2 ⟨alike, repliesAlike⟩, final⟩

/-- Alike replies to each move, up to the first report that nothing is left, are alike replies. -/
theorem replies_eq_until_end (left : Reader σ) (right : Reader τ)
    (related : List Move → σ → τ → Prop)
    (step : ∀ move rest first second, related (move :: rest) first second →
      (left.move first move).1 = (right.move second move).1 ∧
        (move.reportsEnd (right.move second move).1 = true ∨
          related rest (left.move first move).2 (right.move second move).2))
    {moves : List Move} {first : σ} {second : τ} (start : related moves first second)
    (continues : right.continues moves.dropLast second = true) :
    left.replies moves first = right.replies moves second := by
  induction moves generalizing first second with
  | nil => rfl
  | cons move rest inductionHypothesis =>
      obtain ⟨alike, behind⟩ := step move rest first second start
      refine List.cons_eq_cons.2 ⟨alike, ?_⟩
      by_cases remains : rest = []
      · rw [remains, replies, replies]
      · rw [List.dropLast_cons_of_ne_nil remains, Reader.continues, Bool.and_eq_true,
          Bool.not_eq_true'] at continues
        rw [continues.1] at behind
        exact inductionHypothesis (behind.resolve_left nofun) continues.2

end Reader

/-! ## Places -/

section Places

variable {α β : Type}

/-- The item that is passed last. -/
def standingOn (items : List α) : Nat → Option α
  | 0 => none
  | passed + 1 => items[passed]?

/-- The number of items that are passed behind a move backwards. -/
def steppedBack (length : Nat) : Nat → Nat
  | 0 => length
  | passed + 1 => min passed length

theorem standingOn_map (value : α → β) (items : List α) (passed : Nat) :
    standingOn (items.map value) passed = (standingOn items passed).map value := by
  cases passed with
  | zero => rfl
  | succ passed => exact List.getElem?_map

theorem mem_of_standingOn {items : List α} {passed : Nat} {item : α}
    (present : standingOn items passed = some item) : item ∈ items := by
  cases passed with
  | zero => cases present
  | succ passed => exact List.mem_of_getElem? present

theorem standingOn_append_length (first second : List α) :
    standingOn (first ++ second) first.length = first.getLast? := by
  cases first with
  | nil => rfl
  | cons item rest =>
      rw [List.getLast?_eq_getElem?]
      exact List.getElem?_append_left (Nat.lt_succ_self rest.length)

theorem steppedBack_le (length passed : Nat) : steppedBack length passed ≤ length := by
  cases passed with
  | zero => exact Nat.le_refl length
  | succ passed => exact Nat.min_le_right passed length

end Places

/-! ## Sets -/

namespace SetWalk

/-- The walk of a set that has passed a number of members, the last one perhaps only by asking. -/
def standing (set : IdSet) (passed : Nat) (probed : Bool) : SetWalk :=
  ⟨some set, match passed with | 0 => none | passed + 1 => some passed, probed⟩

variable (set : IdSet) (passed : Nat) (probed : Bool)

theorem current_standing :
    (standing set passed probed).current set = standingOn set.ids passed := by
  cases passed <;> rfl

theorem ahead_standing :
    ahead set (standing set passed probed).position = min passed set.size := by
  cases passed with
  | zero => exact (Nat.zero_min _).symm
  | succ passed => rfl

/-- A step forwards passes one more member, until one more than there are. -/
theorem stepped_standing :
    { (standing set passed false).stepped set with probed } =
      standing set (min passed set.size + 1) probed := by
  rw [standing, ← ahead_standing set passed false]
  rfl

theorem next_standing :
    (standing set passed false).next =
      (.ok set.ids[min passed set.size]?, standing set (min passed set.size + 1) false) := by
  have reading (walk : SetWalk) (stepped : { (standing set passed false).stepped set with
      probed := false } = walk) :
        (standing set passed false).next = (.ok (walk.current set), walk) := by
    subst stepped
    rfl
  rw [reading _ (stepped_standing set passed false), current_standing]
  rfl

theorem hasNext_standing :
    (standing set passed false).hasNext =
      (.ok set.ids[min passed set.size]?.isSome,
        standing set (min passed set.size + 1) true) := by
  have asking (walk : SetWalk) (stepped : { (standing set passed false).stepped set with
      probed := true } = walk) :
        (standing set passed false).hasNext = (.ok (walk.current set).isSome, walk) := by
    subst stepped
    rfl
  rw [asking _ (stepped_standing set passed true), current_standing]
  rfl

/-- A member that was asked for is read without a further step. -/
theorem next_probed :
    (standing set (passed + 1) true).next =
      (.ok set.ids[passed]?, standing set (passed + 1) false) :=
  rfl

theorem hasNext_probed :
    (standing set (passed + 1) true).hasNext =
      (.ok set.ids[passed]?.isSome, standing set (passed + 1) true) :=
  rfl

theorem last_standing :
    (standing set passed probed).last =
      (.ok (standingOn set.ids (steppedBack set.size passed)),
        standing set (steppedBack set.size passed) false) := by
  have back : { standing set passed probed with
      position := behind set (standing set passed probed).position, probed := false } =
        standing set (steppedBack set.size passed) false := by
    cases passed with
    | zero => cases size : set.size <;> simp [standing, behind, steppedBack, size]
    | succ passed =>
        cases least : min passed set.size <;> simp [standing, behind, steppedBack, least]
  rw [← current_standing set _ false, ← back]
  rfl

end SetWalk

/-! ## Cursors -/

/-- A cursor that has passed a number of its records. -/
structure Cursor.Stands (cursor : Cursor) (records : List Record) (passed : Nat) : Prop where
  entries : cursor.entries = records.map .record
  position : cursor.position = match passed with
    | 0 => .beforeFirst
    | passed + 1 => if passed < records.length then .onEntry passed else .afterLast

namespace Cursor

variable {cursor : Cursor} {records : List Record} {passed : Nat}

theorem stands_ofEntries (records : List Record) :
    (ofEntries (records.map .record)).Stands records 0 :=
  ⟨rfl, rfl⟩

theorem current_of_stands (stands : cursor.Stands records passed) {record : Record}
    (present : standingOn records passed = some record) : cursor.current = record := by
  cases passed with
  | zero => cases present
  | succ index =>
      have inRange : index < records.length := (List.getElem?_eq_some_iff.1 present).1
      have position : cursor.position = .onEntry index := by
        rw [stands.position]
        exact if_pos inRange
      have found : cursor.entries[index]? = some (.record record) := by
        rw [stands.entries, List.getElem?_map, show records[index]? = some record from present]
        rfl
      simp [current, position, found]

/-- Arriving at a record passes it and all before it, from whichever side it is read. -/
theorem arrive_of_lt {reading : Entry → Except QueryError Record}
    (reads : ∀ record, reading (.record record) = .ok record)
    (entries : cursor.entries = records.map .record) {index : Nat}
    (inRange : index < records.length) :
    ∃ after, cursor.arrive reading index = (.ok true, after) ∧
      after.Stands records (index + 1) := by
  have found : cursor.entries[index]? = some (.record records[index]) := by
    rw [entries, List.getElem?_map, List.getElem?_eq_getElem inRange]
    rfl
  simp only [arrive, found, reads]
  exact ⟨_, rfl, entries, by simp [inRange]⟩

theorem moveNext_of_lt (stands : cursor.Stands records passed)
    (inRange : passed < records.length) :
    ∃ after, cursor.moveNext = (.ok true, after) ∧ after.Stands records (passed + 1) := by
  have arrives : cursor.moveNext = cursor.arrive Entry.read passed := by
    cases passed with
    | zero => simp [moveNext, stands.position]
    | succ passed => simp [moveNext, stands.position, Nat.lt_of_succ_lt inRange]
  rw [arrives]
  exact arrive_of_lt (fun _ => rfl) stands.entries inRange

/-- A move forwards from the last record ends past it. -/
theorem moveNext_of_le (stands : cursor.Stands records passed)
    (all : records.length ≤ passed) :
    ∃ after, cursor.moveNext = (.ok false, after) ∧
      after.Stands records (records.length + 1) := by
  have arriving (index : Nat) (beyond : records.length ≤ index) :
      ∃ after, cursor.arrive Entry.read index = (.ok false, after) ∧
        after.Stands records (records.length + 1) := by
    have absent : cursor.entries[index]? = none := by
      rw [stands.entries, List.getElem?_map, List.getElem?_eq_none beyond]
      rfl
    rw [arrive, absent]
    exact ⟨_, rfl, stands.entries, by simp⟩
  cases passed with
  | zero =>
      simp only [moveNext, stands.position]
      exact arriving 0 all
  | succ passed =>
      by_cases inRange : passed < records.length
      · simp only [moveNext, stands.position, inRange, if_true]
        exact arriving _ all
      · simp only [moveNext, stands.position, inRange, if_false]
        exact ⟨_, rfl, stands.entries, by simp⟩

theorem movePrevious_of_stands (stands : cursor.Stands records passed) :
    ∃ after, cursor.movePrevious =
        (.ok (standingOn records (steppedBack records.length passed)).isSome, after) ∧
      after.Stands records (steppedBack records.length passed) := by
  have leaving : ∃ after, cursor.leave .beforeFirst = (.ok false, after) ∧
      after.Stands records 0 :=
    ⟨_, rfl, stands.entries, rfl⟩
  have arriving (index : Nat) (inRange : index < records.length) :
      ∃ after,
        cursor.arrive Entry.readBack index =
          (.ok (standingOn records (index + 1)).isSome, after) ∧
        after.Stands records (index + 1) := by
    rw [standingOn, List.getElem?_eq_getElem inRange]
    exact arrive_of_lt (fun _ => rfl) stands.entries inRange
  -- From either end a move backwards looks for the last record.
  have wrapping (outside : cursor.position = .beforeFirst ∨ cursor.position = .afterLast) :
      ∃ after, cursor.movePrevious = (.ok (standingOn records records.length).isSome, after) ∧
        after.Stands records records.length := by
    have wraps : cursor.movePrevious =
        if cursor.entries = [] then cursor.leave .beforeFirst
        else cursor.arrive Entry.readBack (cursor.entries.length - 1) := by
      rcases outside with outside | outside <;> simp only [movePrevious, outside]
    rw [wraps, stands.entries, List.length_map]
    cases records with
    | nil => exact leaving
    | cons first rest => exact arriving rest.length (Nat.lt_succ_self _)
  cases passed with
  | zero => exact wrapping (.inl stands.position)
  | succ passed =>
      by_cases inRange : passed < records.length
      · have position : cursor.position = .onEntry passed := by
          rw [stands.position]
          exact if_pos inRange
        rw [steppedBack, Nat.min_eq_left (Nat.le_of_lt inRange)]
        cases passed with
        | zero =>
            simp only [movePrevious, position]
            exact leaving
        | succ index =>
            simp only [movePrevious, position]
            exact arriving index (Nat.lt_of_succ_lt inRange)
      · rw [steppedBack, Nat.min_eq_right (Nat.not_lt.1 inRange)]
        refine wrapping (.inr ?_)
        rw [stands.position]
        exact if_neg inRange

end Cursor

/-! ## Probes -/

/--
A probe that can still move forwards and has passed a number of records, the last one perhaps only
by asking.
-/
structure Probe.Stands (probe : Probe) (records : List Record) (passed : Nat) (asked : Bool) :
    Prop where
  held : probe.held = true
  cursor : probe.cursor.Stands records passed
  answer : probe.answer = if asked then some true else none
  unexhausted : probe.exhausted = false

/-- A probe that has found nothing more, and was perhaps stepped backwards since. -/
structure Probe.Ended (probe : Probe) (records : List Record) (passed : Nat) : Prop where
  held : probe.held = true
  cursor : probe.cursor.Stands records passed
  exhausted : probe.exhausted = true

namespace Probe

variable {probe : Probe} {records : List Record} {passed : Nat}

theorem stands_ofEntries (records : List Record) :
    (ofEntries (records.map .record)).Stands records 0 false :=
  ⟨rfl, Cursor.stands_ofEntries records, rfl, rfl⟩

theorem hasNext_of_lt (stands : probe.Stands records passed false)
    (inRange : passed < records.length) :
    ∃ after, probe.hasNext = (.ok true, after) ∧ after.Stands records (passed + 1) true := by
  obtain ⟨cursor, moved, standsAfter⟩ := Cursor.moveNext_of_lt stands.cursor inRange
  have asked : probe.hasNext =
      (.ok true, { probe with cursor, answer := some true, exhausted := false }) := by
    rw [hasNext, stands.unexhausted, stands.answer, stands.held, moved]
    rfl
  exact ⟨_, asked, stands.held, standsAfter, rfl, rfl⟩

theorem hasNext_of_le (stands : probe.Stands records passed false)
    (all : records.length ≤ passed) :
    ∃ after, probe.hasNext = (.ok false, after) ∧
      after.Ended records (records.length + 1) := by
  obtain ⟨cursor, moved, standsAfter⟩ := Cursor.moveNext_of_le stands.cursor all
  have asked : probe.hasNext =
      (.ok false, { probe with cursor, answer := some false, exhausted := true }) := by
    rw [hasNext, stands.unexhausted, stands.answer, stands.held, moved]
    rfl
  exact ⟨_, asked, stands.held, standsAfter, rfl⟩

/-- Asking again does not move the cursor. -/
theorem hasNext_of_asked (stands : probe.Stands records passed true) :
    probe.hasNext = (.ok true, probe) := by
  rw [hasNext, stands.unexhausted, stands.answer]
  rfl

theorem hasNext_of_ended (ended : probe.Ended records passed) :
    probe.hasNext = (.ok false, probe) := by
  rw [hasNext, ended.exhausted]
  rfl

/-- Taking what was found leaves the probe behind it. -/
theorem advance_of_hasNext {after : Probe} (found : probe.hasNext = (.ok true, after))
    (standsAfter : after.Stands records passed true) {record : Record}
    (present : standingOn records passed = some record) :
    ∃ taken, probe.advance = (.ok (some record), taken) ∧ taken.Stands records passed false := by
  have current := Cursor.current_of_stands standsAfter.cursor present
  refine ⟨{ after with answer := none }, ?_, standsAfter.held, standsAfter.cursor, rfl,
    standsAfter.unexhausted⟩
  rw [advance, found]
  simp [standsAfter.held, current]

theorem advance_of_end {after : Probe} (missed : probe.hasNext = (.ok false, after)) :
    probe.advance = (.ok none, after) := by
  rw [advance, missed]

/-- Stepping back gives up what was asked for, and does not undo that nothing more was found. -/
theorem stepBack_of_stands (held : probe.held = true)
    (stands : probe.cursor.Stands records passed) :
    ∃ cursor, probe.stepBack =
        (.ok (standingOn records (steppedBack records.length passed)),
          { probe with cursor, answer := none }) ∧
      cursor.Stands records (steppedBack records.length passed) := by
  obtain ⟨cursor, moved, standsAfter⟩ := Cursor.movePrevious_of_stands stands
  refine ⟨cursor, ?_, standsAfter⟩
  simp only [stepBack, held, if_true, moved]
  cases present : standingOn records (steppedBack records.length passed) with
  | none => rfl
  | some record => simp [Cursor.current_of_stands standsAfter present]

end Probe

end EntityQuery
