import EntityQuery.Proofs.Reader.Scan

/-!
# Probes read every entry once

A probe is asked whether there is more and for the next entry, in any order, and it is asked on after
an error.  Its replies deliver what moves forward read of the entries of its cursor: a record is
handed out, and a fault is the error of the call that meets it.

Between two calls a probe is in one of three stages.  It stands on what it delivered last, or one
record ahead of it, or past the last entry.  The stage accounts for everything: which entries lie
ahead, and how often the cursor was moved.
-/

namespace EntityQuery

namespace Cursor

theorem steps_arrive (cursor : Cursor) (reading : Entry → Except QueryError Record)
    (index : Nat) : (cursor.arrive reading index).2.usage.steps = cursor.usage.steps + 1 := by
  rw [arrive]
  split <;> rfl

theorem steps_moveNext (cursor : Cursor) :
    cursor.moveNext.2.usage.steps = cursor.usage.steps + 1 := by
  rw [moveNext]
  split
  · exact cursor.steps_arrive _ 0
  · exact cursor.steps_arrive _ _
  · rfl

end Cursor

namespace Probe

/-! ## Calls -/

/-- A call that moves a probe forwards. -/
inductive Call where
  | hasNext
  | advance
deriving DecidableEq, Repr

inductive Reply where
  /-- Whether an entry is there to be taken. -/
  | told (more : Bool)
  /-- The entry that was taken, if one was left. -/
  | gave (found : Option Record)
deriving DecidableEq, Repr

namespace Reply

/-- What a reply delivers of an entry: the record that is handed out, or the fault that is met. -/
def reading? : Except QueryError Reply → Option (Except QueryError Record)
  | .ok (.gave (some record)) => some (.ok record)
  | .ok _ => none
  | .error error => some (.error error)

/-- Whether a reply says that nothing is left. -/
def reportsEnd : Except QueryError Reply → Bool
  | .ok (.told false) | .ok (.gave none) => true
  | _ => false

end Reply

def call (probe : Probe) : Call → Except QueryError Reply × Probe
  | .hasNext =>
      let (answer, after) := probe.hasNext
      (answer.map .told, after)
  | .advance =>
      let (found, after) := probe.advance
      (found.map .gave, after)

/-- Answer calls one after the other; an error of one does not stop the next. -/
def callAll : List Call → Probe → List (Except QueryError Reply) × Probe
  | [], probe => ([], probe)
  | call :: rest, probe =>
      let (reply, after) := probe.call call
      let (replies, final) := callAll rest after
      (reply :: replies, final)

/-- What replies deliver of the entries. -/
def delivered (replies : List (Except QueryError Reply)) : List (Except QueryError Record) :=
  replies.filterMap Reply.reading?

variable {readings given : List (Except QueryError Record)} {probe : Probe}

/-! ## Stages -/

/-- Where a probe is between two calls, when the given part of the readings was delivered. -/
inductive Stage (readings given : List (Except QueryError Record)) (probe : Probe) : Prop
  /-- The cursor stands on the entry that was delivered last. -/
  | level (faces : probe.Faces probe.cursor.rest) (ahead : given ++ probe.cursor.rest = readings)
      (steps : probe.cursor.usage.steps = given.length)
  /-- The cursor stands on a record that was not handed out yet. -/
  | ahead (held : probe.held = true) (answer : probe.answer = some true)
      (unexhausted : probe.exhausted = false)
      (ahead : given ++ .ok probe.cursor.current :: probe.cursor.rest = readings)
      (steps : probe.cursor.usage.steps = given.length + 1)
  /-- The cursor has left the last entry, and this was said. -/
  | past (answer : probe.answer = some false) (exhausted : probe.exhausted = true)
      (all : given = readings) (steps : probe.cursor.usage.steps = given.length + 1)

theorem stage_ofEntries (entries : List Entry) :
    (ofEntries entries).Stage (entries.map Entry.read) [] :=
  .level (faces_ofEntries entries) rfl rfl

theorem Stage.isPrefix (stage : probe.Stage readings given) : given <+: readings := by
  cases stage with
  | level _ ahead _ => exact ⟨_, ahead⟩
  | ahead _ _ _ ahead _ => exact ⟨_, ahead⟩
  | past _ _ all _ => exact all ▸ List.prefix_refl given

theorem Stage.steps_le (stage : probe.Stage readings given) :
    probe.cursor.usage.steps ≤ given.length + 1 := by
  cases stage with
  | level _ _ steps => exact steps ▸ Nat.le_succ _
  | ahead _ _ _ _ steps => exact Nat.le_of_eq steps
  | past _ _ _ steps => exact Nat.le_of_eq steps

theorem Stage.eq_of_exhausted (stage : probe.Stage readings given)
    (exhausted : probe.exhausted = true) : given = readings := by
  cases stage with
  | level faces _ _ => exact absurd (faces.unexhausted.symm.trans exhausted) Bool.false_ne_true
  | ahead _ _ unexhausted _ _ =>
      exact absurd (unexhausted.symm.trans exhausted) Bool.false_ne_true
  | past _ _ all _ => exact all

/-- A probe that stands on what it delivered moves its cursor when it is asked. -/
theorem hasNext_of_faces {ahead : List (Except QueryError Record)} (faces : probe.Faces ahead) :
    probe.hasNext = match probe.cursor.moveNext with
      | (.error error, cursor) => (.error error, { probe with cursor })
      | (.ok answer, cursor) =>
          (.ok answer, { probe with cursor, answer := some answer, exhausted := !answer }) := by
  rw [hasNext, faces.unexhausted, faces.unasked, faces.held]
  rfl

theorem Stage.exhausted_of_answer (stage : probe.Stage readings given)
    (answer : probe.answer = some false) : probe.exhausted = true := by
  cases stage with
  | level faces _ _ =>
      rw [faces.unasked] at answer
      cases answer
  | ahead _ found _ _ _ =>
      rw [found] at answer
      cases answer
  | past _ exhausted _ _ => exact exhausted

/-- Asking delivers a fault, or nothing but an answer that is remembered. -/
theorem Stage.hasNext (stage : probe.Stage readings given) :
    (∃ error asked, probe.hasNext = (.error error, asked) ∧
        asked.Stage readings (given ++ [.error error])) ∨
      ∃ more asked, probe.hasNext = (.ok more, asked) ∧ asked.answer = some more ∧
        asked.Stage readings given := by
  cases stage with
  | level faces ahead steps =>
      have counted := probe.cursor.steps_moveNext
      rw [hasNext_of_faces faces]
      rcases step : probe.cursor.moveNext with ⟨answer, cursor⟩
      rw [step, steps] at counted
      rcases here : probe.cursor.rest with _ | ⟨reading, others⟩
      · have moved := Cursor.moveNext_of_rest_nil here
        rw [step] at moved
        cases moved
        rw [here, List.append_nil] at ahead
        exact .inr ⟨false, _, rfl, rfl, .past rfl rfl ahead counted⟩
      · obtain ⟨after, moved, rest, current⟩ := Cursor.moveNext_of_rest_cons here
        cases step.symm.trans moved
        cases reading with
        | ok record =>
            refine .inr ⟨true, _, rfl, rfl, .ahead faces.held rfl rfl ?_ counted⟩
            rw [← ahead, here, ← current record rfl, ← rest]
        | error error =>
            refine .inl ⟨error, _, rfl,
              .level ⟨faces.held, faces.unasked, faces.unexhausted, rfl⟩ ?_ ?_⟩
            · rw [← ahead, here, ← rest, List.append_assoc, List.singleton_append]
            · rw [List.length_append]
              exact counted
  | ahead held answer unexhausted ahead steps =>
      refine .inr ⟨true, probe, ?_, answer, .ahead held answer unexhausted ahead steps⟩
      rw [Probe.hasNext, unexhausted, answer]
      rfl
  | past answer exhausted all steps =>
      refine .inr ⟨false, probe, ?_, answer, .past answer exhausted all steps⟩
      rw [Probe.hasNext, exhausted]
      rfl

/-- A reply delivers what the stage afterwards counts as delivered, and says that nothing is left only
if this is remembered. -/
structure Accounts (readings given : List (Except QueryError Record))
    (reply : Except QueryError Reply) (after : Probe) : Prop where
  stage : after.Stage readings (given ++ (Reply.reading? reply).toList)
  ended : Reply.reportsEnd reply = true → after.exhausted = true

theorem Accounts.of_end {reply : Except QueryError Reply} (stage : probe.Stage readings given)
    (delivers : Reply.reading? reply = none)
    (answer : Reply.reportsEnd reply = true → probe.answer = some false) :
    probe.Accounts readings given reply := by
  constructor
  · rw [delivers, Option.toList_none, List.append_nil]
    exact stage
  · exact fun ended => stage.exhausted_of_answer (answer ended)

/-- Taking delivers what asking found. -/
theorem Stage.accounts_advance (stage : probe.Stage readings given) :
    probe.advance.2.Accounts readings given (probe.advance.1.map .gave) := by
  rcases stage.hasNext with ⟨error, asked, step, after⟩ | ⟨more, asked, step, answer, after⟩
  · rw [advance, step]
    exact ⟨after, fun ended => absurd ended Bool.false_ne_true⟩
  · rw [advance, step]
    cases more with
    | false => exact .of_end after rfl fun _ => answer
    | true =>
        cases after with
        | level faces _ _ =>
            rw [faces.unasked] at answer
            cases answer
        | past exhausted _ _ _ =>
            rw [exhausted] at answer
            cases answer
        | ahead held _ unexhausted ahead steps =>
            dsimp only
            rw [if_pos held]
            refine ⟨.level ⟨held, rfl, unexhausted, rfl⟩ ?_ ?_,
              fun ended => absurd ended Bool.false_ne_true⟩
            · rw [← ahead]
              exact List.append_assoc ..
            · rw [List.length_append]
              exact steps

/-- Every call keeps the account. -/
theorem Stage.accounts_call (stage : probe.Stage readings given) (call : Call) :
    (probe.call call).2.Accounts readings given (probe.call call).1 := by
  cases call with
  | advance => exact stage.accounts_advance
  | hasNext =>
      rcases stage.hasNext with ⟨error, asked, step, after⟩ | ⟨more, asked, step, answer, after⟩
      · rw [call, step]
        exact ⟨after, fun ended => absurd ended Bool.false_ne_true⟩
      · rw [call, step]
        refine .of_end after rfl fun ended => ?_
        cases more with
        | false => exact answer
        | true => cases ended

/-! ## Runs of calls -/

theorem Stage.callAll (stage : probe.Stage readings given) (calls : List Call) :
    (probe.callAll calls).2.Stage readings (given ++ delivered (probe.callAll calls).1) := by
  induction calls generalizing probe given with
  | nil =>
      rw [Probe.callAll, delivered, List.filterMap_nil, List.append_nil]
      exact stage
  | cons call rest inductionHypothesis =>
      have after := inductionHypothesis (stage.accounts_call call).stage
      have listed : delivered (probe.callAll (call :: rest)).1 =
          (Reply.reading? (probe.call call).1).toList ++
            delivered ((probe.call call).2.callAll rest).1 := by
        simp only [Probe.callAll, delivered, List.filterMap_cons]
        cases Reply.reading? (probe.call call).1 <;> rfl
      rw [listed, ← List.append_assoc]
      exact after

theorem call_of_exhausted (exhausted : probe.exhausted = true) (call : Call) :
    (probe.call call).2 = probe := by
  have asked : probe.hasNext = (.ok false, probe) := by
    rw [hasNext, exhausted]
    rfl
  cases call with
  | hasNext => rw [Probe.call, asked]
  | advance => rw [Probe.call, advance, asked]

theorem callAll_of_exhausted (exhausted : probe.exhausted = true) (calls : List Call) :
    (probe.callAll calls).2 = probe := by
  induction calls with
  | nil => rfl
  | cons call rest inductionHypothesis =>
      simp only [callAll, call_of_exhausted exhausted, inductionHypothesis]

/-- That nothing is left is remembered to the end of a run. -/
theorem Stage.exhausted_callAll (stage : probe.Stage readings given) {calls : List Call}
    (ended : ∃ reply ∈ (probe.callAll calls).1, Reply.reportsEnd reply = true) :
    (probe.callAll calls).2.exhausted = true := by
  induction calls generalizing probe given with
  | nil =>
      obtain ⟨_, member, _⟩ := ended
      cases member
  | cons call rest inductionHypothesis =>
      have accounts := stage.accounts_call call
      obtain ⟨reply, member, reports⟩ := ended
      rcases List.mem_cons.1 member with rfl | later
      · have exhausted := accounts.ended reports
        show ((probe.call call).2.callAll rest).2.exhausted = true
        rw [callAll_of_exhausted exhausted]
        exact exhausted
      · exact inductionHypothesis accounts.stage ⟨reply, later, reports⟩

/-- What the replies of a run deliver, and how often it moved the cursor. -/
structure ReadsOnce (entries : List Entry) (replies : List (Except QueryError Reply))
    (after : Probe) : Prop where
  inOrder : delivered replies <+: entries.map Entry.read
  moves : after.cursor.usage.steps ≤ (delivered replies).length + 1
  whole : (∃ reply ∈ replies, Reply.reportsEnd reply = true) →
    delivered replies = entries.map Entry.read
  rests : (∃ reply ∈ replies, Reply.reportsEnd reply = true) →
    ∀ more, (after.callAll more).2.cursor = after.cursor

/--
A probe reads every entry once.  However it is asked, its replies deliver a beginning of what moves
forward read of the entries, and all of it once one says that nothing is left; after that the cursor
does not move any more.  At no time was it moved more than once beyond what was delivered.
-/
theorem callAll_readsOnce (entries : List Entry) (calls : List Call) :
    ReadsOnce entries ((ofEntries entries).callAll calls).1 ((ofEntries entries).callAll calls).2 := by
  have start := stage_ofEntries entries
  have stage := start.callAll calls
  rw [List.nil_append] at stage
  constructor
  case inOrder => exact stage.isPrefix
  case moves => exact stage.steps_le
  case whole =>
    intro ended
    exact stage.eq_of_exhausted (start.exhausted_callAll ended)
  case rests =>
    intro ended more
    rw [callAll_of_exhausted (start.exhausted_callAll ended)]

/-- A fault is met by asking, between two records that are taken. -/
example :
    let first : Record := ⟨[1], []⟩
    let second : Record := ⟨[2], []⟩
    let failure : QueryError := .reported (.storeIo "unreadable")
    let run := (ofEntries [.record first, .fault failure, .record second]).callAll
      [.hasNext, .hasNext, .advance, .hasNext, .advance, .advance, .hasNext, .advance]
    run.1 = [.ok (.told true), .ok (.told true), .ok (.gave first), .error failure,
        .ok (.gave second), .ok (.gave none), .ok (.told false), .ok (.gave none)] ∧
      run.2.cursor.usage.steps = 4 :=
  ⟨rfl, rfl⟩

end Probe

end EntityQuery
