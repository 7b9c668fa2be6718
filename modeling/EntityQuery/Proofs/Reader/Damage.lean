import EntityQuery.Proofs.Reader.Combination
import EntityQuery.Proofs.Reader.Emission
import EntityQuery.Proofs.Reader.Scan

/-!
# What damaged indexes do to a traversal

An entry of an index may be a fault of the storage engine, or a record with a key or a value of any
length.  Collecting a tree of unions over scans of such indexes either fails or has looked at every
entry of every index and found all of them intact, so a result is never cut short.  A failure is
explained by the tree: it is one of the faults, or it reports a record that cannot be decoded, or it
reports two identities that a child of a union yields in the wrong order.

Both halves are proved of readers at large.  Reading forwards until the first answer that is not an
identity accounts for a property and for a set of errors if the end of the reader entails the
property and every failure is an error of the set.  A scan accounts for its entries by the records
that lie ahead of its probe, and a union accounts for what both of its children do.
-/

namespace EntityQuery

/-! ## Reading to the end -/

/--
What one reading says: an error is to blame, the end entails that nothing is missing, and behind
anything else the state is kept.
-/
structure Reports {α σ : Type} (complete : Prop) (blames : QueryError → Prop) (keeps : σ → Prop)
    (result : Except QueryError (Option α) × σ) : Prop where
  failed : ∀ error, result.1 = .error error → blames error
  ended : result.1 = .ok none → complete
  yielded : ∀ found, result.1 = .ok (some found) → keeps result.2

namespace Reports

variable {α σ : Type} {complete : Prop} {blames : QueryError → Prop} {keeps : σ → Prop}
  {state : σ}

theorem of_error {error : QueryError} (blamed : blames error) :
    Reports complete blames keeps ((.error error, state) : Except QueryError (Option α) × σ) where
  failed := by
    rintro _ ⟨⟩
    exact blamed
  ended := nofun
  yielded := nofun

theorem of_end (all : complete) :
    Reports complete blames keeps ((.ok none, state) : Except QueryError (Option α) × σ) where
  failed := nofun
  ended _ := all
  yielded := nofun

theorem of_yield {found : α} (kept : keeps state) :
    Reports complete blames keeps
      ((.ok (some found), state) : Except QueryError (Option α) × σ) where
  failed := nofun
  ended := nofun
  yielded _ _ := kept

end Reports

namespace Reader

variable {σ : Type} {reader : Reader σ} {first state : σ} {ids : List EntityId} {complete : Prop}
  {blames : QueryError → Prop}

/-- Reading forwards yields the identities one after the other and leads to the state. -/
inductive Reads (reader : Reader σ) (first : σ) : List EntityId → σ → Prop
  | start : Reads reader first [] first
  | yielded {ids : List EntityId} {state after : σ} {id : EntityId} :
      Reads reader first ids state → reader.next state = (.ok (some id), after) →
        Reads reader first (ids ++ [id]) after

/-- The end of a reader entails a property, and every failure is one of the given errors. -/
structure Accounts (reader : Reader σ) (first : σ) (complete : Prop)
    (blames : QueryError → Prop) : Prop where
  ended : ∀ {ids state after}, reader.Reads first ids state →
    reader.next state = (.ok none, after) → complete
  failed : ∀ {ids state error after}, reader.Reads first ids state →
    reader.next state = (.error error, after) → blames error

theorem accounts_of_reports {keeps : σ → Prop} (start : keeps first)
    (reports : ∀ state, keeps state → Reports complete blames keeps (reader.next state)) :
    reader.Accounts first complete blames := by
  have kept {ids : List EntityId} {state : σ} (reads : reader.Reads first ids state) :
      keeps state := by
    induction reads with
    | start => exact start
    | yielded _ step inductionHypothesis =>
        have reported := reports _ inductionHypothesis
        rw [step] at reported
        exact reported.yielded _ rfl
  constructor
  · intro ids state after reads step
    have reported := reports state (kept reads)
    rw [step] at reported
    exact reported.ended rfl
  · intro ids state error after reads step
    have reported := reports state (kept reads)
    rw [step] at reported
    exact reported.failed error rfl

theorem Accounts.drain (accounts : reader.Accounts first complete blames)
    (reads : reader.Reads first ids state) :
    (∀ found, (reader.drain state).1 = .ok found → complete) ∧
      ∀ error, (reader.drain state).1 = .error error → blames error := by
  induction state using Reader.drain.induct reader generalizing ids with
  | case1 state error after step =>
      rw [Reader.drain, step]
      constructor
      · rintro _ ⟨⟩
      · rintro _ ⟨⟩
        exact accounts.failed reads step
  | case2 state after step =>
      rw [Reader.drain, step]
      constructor
      · exact fun _ _ => accounts.ended reads step
      · rintro _ ⟨⟩
  | case3 state id after step rest final drained inductionHypothesis =>
      obtain ⟨ended, failed⟩ := inductionHypothesis (reads.yielded step)
      rw [drained] at ended failed
      rw [Reader.drain, step]
      simp only [drained]
      cases rest with
      | error error =>
          constructor
          · rintro _ ⟨⟩
          · rintro _ ⟨⟩
            exact failed error rfl
      | ok found =>
          constructor
          · exact fun _ _ => ended found rfl
          · rintro _ ⟨⟩

end Reader

/-! ## Entries -/

/-- An entry whose record can be read forward and decoded; its value counts where links are read. -/
def Entry.Intact (linked : Bool) (entry : Entry) : Prop :=
  ∃ stored, entry.read = .ok stored ∧ stored.key.length = 8 ∧
    (linked = true → stored.value.length = 12)

/-- A record that cannot be decoded, and the error of reading it. -/
inductive Record.Undecodable (linked : Bool) (record : Record) : QueryError → Prop
  | key (length : record.key.length ≠ 8) :
      Undecodable linked record (.entityKeyLength record.key.length)
  | target (reads : linked = true) (length : record.value.length ≠ 12) :
      Undecodable linked record (.linkTargetLength record.value.length)

/-- An error that an entry is to blame for: it is the fault itself, with all that this says of its
cause, or it reports an undecodable record. -/
inductive Entry.Blamed (linked : Bool) (entries : List Entry) (error : QueryError) : Prop
  | fault (member : .fault error ∈ entries)
  | record {entry : Entry} {record : Record} (member : entry ∈ entries)
      (reads : entry.read = .ok record) (undecodable : record.Undecodable linked error)
      (corruption : error.failure.category = .corruption) (index : error.failure.origin = .index)

theorem Entry.blamed_of_undecodable {linked : Bool} {entries : List Entry} {error : QueryError}
    {entry : Entry} {record : Record} (member : entry ∈ entries) (reads : entry.read = .ok record)
    (undecodable : record.Undecodable linked error) : Blamed linked entries error :=
  .record member reads undecodable (by cases undecodable <;> rfl) (by cases undecodable <;> rfl)

/-- Only a fault fails to be read forward. -/
theorem Entry.eq_fault_of_read {entry : Entry} {error : QueryError}
    (failed : entry.read = .error error) : entry = .fault error := by
  cases entry with
  | record stored | oneWay stored _ => cases failed
  | fault other =>
      cases failed
      rfl

/-! ## Scans -/

namespace Probe

/-- A probe that was not asked, and has passed intact entries only. -/
def Examines (linked : Bool) (entries : List Entry) (probe : Probe) : Prop :=
  ∃ passed rest, passed ++ rest = entries ∧ probe.Faces (rest.map Entry.read) ∧
    ∀ entry ∈ passed, entry.Intact linked

theorem examines_ofEntries (linked : Bool) (entries : List Entry) :
    (ofEntries entries).Examines linked entries :=
  ⟨[], entries, rfl, faces_ofEntries entries, nofun⟩

/-- Taking a record: it is that of an entry, and if this is intact then the probe has passed it. -/
theorem advance_of_examines {linked : Bool} {entries : List Entry} {probe : Probe}
    (examines : probe.Examines linked entries) :
    (∃ error, probe.advance.1 = .error error ∧ .fault error ∈ entries) ∨
      (∃ after, probe.advance = (.ok none, after) ∧ ∀ entry ∈ entries, entry.Intact linked) ∨
      ∃ record after, probe.advance = (.ok (some record), after) ∧
        ∃ entry ∈ entries, entry.read = .ok record ∧
          (entry.Intact linked → after.Examines linked entries) := by
  obtain ⟨passed, rest, rfl, faces, intact⟩ := examines
  rcases rest with _ | ⟨entry, others⟩
  · obtain ⟨after, taken⟩ := advance_of_faces_nil faces
    rw [List.append_nil]
    exact .inr (.inl ⟨after, taken, intact⟩)
  · have member : entry ∈ passed ++ entry :: others :=
      List.mem_append_right passed List.mem_cons_self
    rw [List.map_cons] at faces
    cases reads : entry.read with
    | error error =>
        rw [reads] at faces
        exact .inl ⟨error, advance_of_faces_error faces, Entry.eq_fault_of_read reads ▸ member⟩
    | ok record =>
        rw [reads] at faces
        obtain ⟨after, taken, facesOthers⟩ := advance_of_faces_cons faces
        refine .inr (.inr ⟨record, after, taken, entry, member, reads, ?_⟩)
        intro entryIntact
        refine ⟨passed ++ [entry], others, ?_, facesOthers, ?_⟩
        · rw [List.append_assoc, List.singleton_append]
        · intro other passedOther
          rcases List.mem_append.1 passedOther with before | last
          · exact intact other before
          · rw [List.mem_singleton.1 last]
            exact entryIntact

end Probe

/-- What a scan reports of the entries of its index. -/
abbrev ReportsEntries {α σ : Type} (linked : Bool) (entries : List Entry) (keeps : σ → Prop)
    (result : Except QueryError (Option α) × σ) : Prop :=
  Reports (∀ entry ∈ entries, entry.Intact linked) (Entry.Blamed linked entries) keeps result

section Scans

variable {entries : List Entry}

theorem EntityWalk.next_reports {walk : EntityWalk} (examines : walk.probe.Examines false entries) :
    ReportsEntries false entries (fun after => after.probe.Examines false entries)
      walk.next := by
  rcases Probe.advance_of_examines examines with
    ⟨error, failed, member⟩ | ⟨after, taken, intact⟩ |
      ⟨record, after, taken, entry, member, reads, passing⟩
  · rcases step : walk.probe.advance with ⟨result, after⟩
    rw [step] at failed
    cases failed
    rw [next, step]
    exact .of_error (.fault member)
  · rw [next, taken]
    exact .of_end intact
  · rw [next, taken]
    cases decoding : Layout.decodeEntityKey walk.typeId record.key with
    | error error =>
        obtain ⟨length, rfl⟩ := Layout.error_of_decodeEntityKey decoding
        simp only [decode, decoding]
        exact .of_error (Entry.blamed_of_undecodable member reads (.key length))
    | ok id =>
        simp only [decode, decoding]
        refine .of_yield (passing ⟨record, reads, Layout.length_of_decodeEntityKey decoding, ?_⟩)
        exact fun linked => absurd linked Bool.false_ne_true

theorem EntityWalk.accounts_of_examines {walk : EntityWalk}
    (examines : walk.probe.Examines false entries) :
    entityReader.Accounts walk (∀ entry ∈ entries, entry.Intact false)
      (Entry.Blamed false entries) :=
  Reader.accounts_of_reports examines fun _ => next_reports

theorem LinkWalk.undecodable_of_decodeEdge {typeId : TypeId} {record : Record}
    {error : QueryError} (refused : decodeEdge typeId record = .error error) :
    record.Undecodable true error := by
  rw [decodeEdge] at refused
  split at refused
  · rename_i keyRefused
    cases refused
    obtain ⟨length, rfl⟩ := Layout.error_of_decodeEntityKey keyRefused
    exact .key length
  · cases decoding : Layout.decodeLinkTarget record.value with
    | error error =>
        rw [decoding] at refused
        cases refused
        obtain ⟨length, rfl⟩ := Layout.error_of_decodeLinkTarget decoding
        exact .target rfl length
    | ok target =>
        rw [decoding] at refused
        cases refused

theorem LinkWalk.intact_of_decodeEdge {typeId : TypeId} {record : Record} {edge : Edge}
    {entry : Entry} (reads : entry.read = .ok record)
    (decoded : decodeEdge typeId record = .ok edge) : entry.Intact true := by
  rw [decodeEdge] at decoded
  split at decoded
  · cases decoded
  · rename_i keyDecoded
    cases decoding : Layout.decodeLinkTarget record.value with
    | error error =>
        rw [decoding] at decoded
        cases decoded
    | ok target =>
        exact ⟨record, reads, Layout.length_of_decodeEntityKey keyDecoded,
          fun _ => Layout.length_of_decodeLinkTarget decoding⟩

theorem LinkWalk.nextEdge_reports {walk : LinkWalk} (examines : walk.probe.Examines true entries) :
    ReportsEntries true entries (fun after => after.probe.Examines true entries)
      walk.nextEdge := by
  rcases Probe.advance_of_examines examines with
    ⟨error, failed, member⟩ | ⟨after, taken, intact⟩ |
      ⟨record, after, taken, entry, member, reads, passing⟩
  · rcases step : walk.probe.advance with ⟨result, after⟩
    rw [step] at failed
    cases failed
    rw [nextEdge, step]
    exact .of_error (.fault member)
  · rw [nextEdge, taken]
    exact .of_end intact
  · rw [nextEdge, taken]
    simp only [takeEdge]
    split
    · rename_i refused
      exact .of_error (Entry.blamed_of_undecodable member reads (undecodable_of_decodeEdge refused))
    · rename_i decoded
      exact .of_yield (passing (intact_of_decodeEdge reads decoded))

/-- A walk between two readings: nothing is kept ahead. -/
structure SourceWalk.Examines (entries : List Entry) (walk : SourceWalk) : Prop where
  nothing : walk.lookahead = none
  links : walk.links.probe.Examines true entries

/-- Repeated sources are passed over, but their edges are decoded like the others. -/
theorem SourceWalk.next_reports {walk : SourceWalk} (examines : walk.Examines entries) :
    ReportsEntries true entries (SourceWalk.Examines entries) walk.next := by
  have unfilled : walk.lookahead.isSome = false := by rw [examines.nothing]; rfl
  simp only [next, fill, unfilled, Bool.false_eq_true, if_false]
  induction walk using SourceWalk.seek.induct with
  | case1 walk error links step =>
      have reported := LinkWalk.nextEdge_reports examines.links
      rw [step] at reported
      rw [seek, step]
      exact .of_error (reported.failed error rfl)
  | case2 walk links step =>
      have reported := LinkWalk.nextEdge_reports examines.links
      rw [step] at reported
      rw [seek, step]
      simp only [examines.nothing]
      exact .of_end (reported.ended rfl)
  | case3 walk edge links step repeated inductionHypothesis =>
      have reported := LinkWalk.nextEdge_reports examines.links
      rw [step] at reported
      rw [seek, step]
      simp only [if_pos repeated]
      exact inductionHypothesis ⟨examines.nothing, reported.yielded edge rfl⟩ unfilled
  | case4 walk edge links step fresh =>
      have reported := LinkWalk.nextEdge_reports examines.links
      rw [step] at reported
      rw [seek, step]
      simp only [fresh, if_false]
      exact .of_yield ⟨rfl, reported.yielded edge rfl⟩

theorem SourceWalk.accounts_of_examines {walk : SourceWalk} (examines : walk.Examines entries) :
    sourceReader.Accounts walk (∀ entry ∈ entries, entry.Intact true)
      (Entry.Blamed true entries) :=
  Reader.accounts_of_reports examines fun _ => next_reports

/-- A walk between two readings: nothing is kept ahead, and the end was not reached. -/
structure JoinWalk.Examines (entries : List Entry) (walk : JoinWalk) : Prop where
  nothing : walk.lookahead = none
  unended : walk.done = false
  links : walk.links.probe.Examines true entries

/-- Edges that do not join are passed over, but they are decoded like the others. -/
theorem JoinWalk.next_reports {walk : JoinWalk} (examines : walk.Examines entries) :
    ReportsEntries true entries (JoinWalk.Examines entries) walk.next := by
  have unfilled : (walk.done || walk.lookahead.isSome) = false := by
    rw [examines.nothing, examines.unended]
    rfl
  simp only [next, fill, unfilled, Bool.false_eq_true, if_false]
  induction walk using JoinWalk.seek.induct with
  | case1 walk error links step =>
      have reported := LinkWalk.nextEdge_reports examines.links
      rw [step] at reported
      rw [seek, step]
      exact .of_error (reported.failed error rfl)
  | case2 walk links step =>
      have reported := LinkWalk.nextEdge_reports examines.links
      rw [step] at reported
      rw [seek, step]
      simp only [examines.nothing]
      exact .of_end (reported.ended rfl)
  | case3 walk edge links step accepted =>
      have reported := LinkWalk.nextEdge_reports examines.links
      rw [step] at reported
      rw [seek, step]
      simp only [accepted, if_true]
      exact .of_yield ⟨rfl, examines.unended, reported.yielded edge rfl⟩
  | case4 walk edge links step rejected inductionHypothesis =>
      have reported := LinkWalk.nextEdge_reports examines.links
      rw [step] at reported
      rw [seek, step]
      simp only [rejected]
      exact inductionHypothesis
        ⟨examines.nothing, examines.unended, reported.yielded edge rfl⟩ unfilled

theorem JoinWalk.accounts_of_examines {walk : JoinWalk} (examines : walk.Examines entries) :
    joinReader.Accounts walk (∀ entry ∈ entries, entry.Intact true) (Entry.Blamed true entries) :=
  Reader.accounts_of_reports examines fun _ => next_reports

end Scans

/-! ## Unions -/

/-- Reading yields two identities in the wrong order, and the error reports them. -/
def Reader.Descends {σ : Type} (reader : Reader σ) (first : σ) (side : Side)
    (error : QueryError) : Prop :=
  ∃ ids previous current state, reader.Reads first (ids ++ [previous, current]) state ∧
    current < previous ∧ error = .childOutOfOrder .union side previous current

namespace Feed

variable {σ : Type} {reader : Reader σ} {first : σ} {complete : Prop}
  {blames : QueryError → Prop} {feed : Feed σ}

/--
How far a child was read without an error: what was yielded last is shown or was taken, or the child
has ended.
-/
inductive Reading (reader : Reader σ) (first : σ) (complete : Prop) : Feed σ → Prop
  | unread {ids : List EntityId} {state : σ} (reads : reader.Reads first ids state) :
      Reading reader first complete ⟨state, none, false, ids.getLast?⟩
  | shown {ids : List EntityId} {state : σ} {id : EntityId} {last : Option EntityId}
      (reads : reader.Reads first (ids ++ [id]) state) :
      Reading reader first complete ⟨state, some id, false, last⟩
  | ended {state : σ} {last : Option EntityId} (all : complete) :
      Reading reader first complete ⟨state, none, true, last⟩

theorem reading_ofState (reader : Reader σ) (first : σ) (complete : Prop) :
    (ofState first).Reading reader first complete :=
  .unread .start

theorem Reading.take (reading : feed.Reading reader first complete) :
    feed.take.Reading reader first complete := by
  cases reading with
  | unread reads => exact .unread reads
  | @shown ids state id last reads =>
      have taken : some id = (ids ++ [id]).getLast? := (List.getLast?_concat ..).symm
      rw [Feed.take, Option.some_or, taken]
      exact .unread reads
  | ended all => exact .ended all

/-- A child that was filled without an error shows an identity, unless nothing of it is missing. -/
theorem Reading.complete_of_done (reading : feed.Reading reader first complete)
    (done : feed.done = true) : complete := by
  cases reading with
  | unread => cases done
  | shown => cases done
  | ended all => exact all

theorem Reading.fill (accounts : reader.Accounts first complete blames)
    (reading : feed.Reading reader first complete) (side : Side) :
    (∀ error, (feed.fill reader .union side).1 = .error error →
        blames error ∨ reader.Descends first side error) ∧
      ((feed.fill reader .union side).1 = .ok () →
        (feed.fill reader .union side).2.Reading reader first complete) := by
  have filling := feed.filling_fill reader .union side
  generalize feed.fill reader .union side = result at filling
  cases reading with
  | @unread ids state reads =>
      cases filling with
      | kept => exact ⟨nofun, fun _ => .unread reads⟩
      | failed unfilled unended step =>
          refine ⟨?_, nofun⟩
          rintro _ ⟨⟩
          exact .inl (accounts.failed reads step)
      | ended unfilled unended step => exact ⟨nofun, fun _ => .ended (accounts.ended reads step)⟩
      | found unfilled unended step => exact ⟨nofun, fun _ => .shown (reads.yielded step)⟩
      | @refused id previous after unfilled unended step taken below =>
          refine ⟨?_, nofun⟩
          rintro _ ⟨⟩
          obtain ⟨others, rfl⟩ := List.getLast?_eq_some_iff.1 taken
          have both := reads.yielded step
          rw [List.append_assoc, List.singleton_append] at both
          exact .inr ⟨others, previous, id, after, both, below, rfl⟩
  | shown reads =>
      cases filling with
      | kept => exact ⟨nofun, fun _ => .shown reads⟩
      | failed unfilled => cases unfilled
      | ended unfilled => cases unfilled
      | found unfilled => cases unfilled
      | refused unfilled => cases unfilled
  | ended all =>
      cases filling with
      | kept => exact ⟨nofun, fun _ => .ended all⟩
      | failed unfilled unended => cases unended
      | ended unfilled unended => cases unended
      | found unfilled unended => cases unended
      | refused unfilled unended => cases unended

end Feed

namespace Pair

variable {σ τ : Type} {left : Reader σ} {right : Reader τ} {first : σ} {second : τ}
  {leftComplete rightComplete : Prop} {leftBlames rightBlames : QueryError → Prop}
  {pair : Pair σ τ}

/-- How far the children of a pair were read. -/
structure Reading (left : Reader σ) (right : Reader τ) (first : σ) (second : τ)
    (leftComplete rightComplete : Prop) (pair : Pair σ τ) : Prop where
  fromLeft : pair.left.Reading left first leftComplete
  fromRight : pair.right.Reading right second rightComplete
  pending : pair.pending = none

/-- An error of a union: one of a child, or a child is not in order. -/
def UnionBlames (left : Reader σ) (right : Reader τ) (first : σ) (second : τ)
    (leftBlames rightBlames : QueryError → Prop) (error : QueryError) : Prop :=
  (leftBlames error ∨ left.Descends first .left error) ∨
    rightBlames error ∨ right.Descends second .right error

variable (leftAccounts : left.Accounts first leftComplete leftBlames)
  (rightAccounts : right.Accounts second rightComplete rightBlames)
include leftAccounts rightAccounts

theorem Reading.fillBoth
    (reading : pair.Reading left right first second leftComplete rightComplete) :
    (∀ error, (pair.fillBoth left right .union).1 = .error error →
        UnionBlames left right first second leftBlames rightBlames error) ∧
      ((pair.fillBoth left right .union).1 = .ok () →
        (pair.fillBoth left right .union).2.Reading left right first second leftComplete
          rightComplete) := by
  obtain ⟨leftFailed, leftFilled⟩ := reading.fromLeft.fill leftAccounts .left
  obtain ⟨rightFailed, rightFilled⟩ := reading.fromRight.fill rightAccounts .right
  rw [Pair.fillBoth, fillLeft]
  rcases leftStep : pair.left.fill left .union .left with ⟨error | filled, leftFeed⟩
  · rw [leftStep] at leftFailed
    constructor
    · rintro _ ⟨⟩
      exact .inl (leftFailed error rfl)
    · rintro ⟨⟩
  · rw [leftStep] at leftFilled
    simp only [fillRight]
    constructor
    · intro error failed
      exact .inr (rightFailed error failed)
    · intro succeeded
      exact ⟨leftFilled rfl, rightFilled succeeded, reading.pending⟩

omit leftAccounts rightAccounts in
theorem Reading.takeLeast {taken : Pair σ τ} {id : EntityId}
    (reading : pair.Reading left right first second leftComplete rightComplete)
    (least : pair.takeLeast = some (id, taken)) :
    taken.Reading left right first second leftComplete rightComplete := by
  obtain ⟨fromLeft, fromRight, pending⟩ := reading
  rcases takeLeast_cases least with ⟨_, _, rfl⟩ | ⟨_, _, rfl⟩ | ⟨_, _, rfl⟩
  · exact ⟨fromLeft.take, fromRight, pending⟩
  · exact ⟨fromLeft, fromRight.take, pending⟩
  · exact ⟨fromLeft.take, fromRight.take, pending⟩

/--
A round of a union answers with a report, or it leaves out an identity and the children are read on.
Where neither child shows anything after they were filled, both have ended.
-/
theorem Reading.unionStep
    (reading : pair.Reading left right first second leftComplete rightComplete) :
    (∀ answer, (pair.unionStep left right).1 = some answer →
        Reports (leftComplete ∧ rightComplete)
          (UnionBlames left right first second leftBlames rightBlames)
          (Reading left right first second leftComplete rightComplete)
          (answer, (pair.unionStep left right).2)) ∧
      ((pair.unionStep left right).1 = none →
        (pair.unionStep left right).2.Reading left right first second leftComplete
          rightComplete) := by
  obtain ⟨failed, filled⟩ := reading.fillBoth leftAccounts rightAccounts
  rw [Pair.unionStep]
  split
  · rename_i error half filling
    rw [filling] at failed
    constructor
    · rintro _ ⟨⟩
      exact .of_error (failed error rfl)
    · rintro ⟨⟩
  · rename_i half filling
    have halfReading := filled (congrArg Prod.fst filling)
    rw [filling] at halfReading
    split
    · rename_i nothing
      obtain ⟨leftDone, rightDone⟩ := done_of_fillBoth filling
      obtain ⟨leftItem, rightItem⟩ := takeLeast_eq_none nothing
      constructor
      · rintro _ ⟨⟩
        exact .of_end ⟨halfReading.fromLeft.complete_of_done (leftDone leftItem),
          halfReading.fromRight.complete_of_done (rightDone rightItem)⟩
      · rintro ⟨⟩
    · rename_i id taken least
      have takenReading := halfReading.takeLeast least
      rw [emitOnce]
      split
      · constructor
        · rintro _ ⟨⟩
        · intro _
          exact takenReading
      · constructor
        · rintro _ ⟨⟩
          exact .of_yield ⟨takenReading.fromLeft, takenReading.fromRight, takenReading.pending⟩
        · rintro ⟨⟩

theorem Reading.fetch
    (reading : pair.Reading left right first second leftComplete rightComplete) :
    Reports (leftComplete ∧ rightComplete)
      (UnionBlames left right first second leftBlames rightBlames)
      (Reading left right first second leftComplete rightComplete)
      (pair.fetch (unionRound left right)) := by
  induction pair using Pair.fetch.induct (unionRound left right) with
  | case1 pair answer after step =>
      have reports := (reading.unionStep leftAccounts rightAccounts).1 answer
      rw [fetch_of_answer step]
      change pair.unionStep left right = _ at step
      rw [step] at reports
      exact reports rfl
  | case2 pair after step inductionHypothesis =>
      have readOn := (reading.unionStep leftAccounts rightAccounts).2
      rw [fetch_of_silence step]
      change pair.unionStep left right = _ at step
      rw [step] at readOn
      exact inductionHypothesis (readOn rfl)

/-- A union accounts for what both children account for, and for their order. -/
theorem accounts_union :
    (unionReader left right).Accounts (ofStates first second) (leftComplete ∧ rightComplete)
      (UnionBlames left right first second leftBlames rightBlames) := by
  have start : (ofStates first second).Reading left right first second leftComplete
      rightComplete :=
    ⟨Feed.reading_ofState left first leftComplete, Feed.reading_ofState right second rightComplete,
      rfl⟩
  refine Reader.accounts_of_reports start ?_
  intro pair reading
  change Reports _ _ _ (pair.next (unionRound left right))
  rw [next_eq_fetch reading.pending]
  exact reading.fetch leftAccounts rightAccounts

end Pair

/-! ## Trees of scans -/

/-- A scan of one index with arbitrary entries. -/
inductive ScanLeaf where
  /-- The entities of a type. -/
  | entities (typeId : TypeId) (entries : List Entry)
  /-- The distinct sources of a link. -/
  | sources (typeId : TypeId) (entries : List Entry)
  /-- The sources with a target in a set. -/
  | join (typeId : TypeId) (entries : List Entry) (targets : IdSet)

namespace ScanLeaf

def entries : ScanLeaf → List Entry
  | .entities _ entries | .sources _ entries | .join _ entries _ => entries

/-- Whether the scan reads the values of its index as link targets. -/
def linked : ScanLeaf → Bool
  | .entities _ _ => false
  | .sources _ _ | .join _ _ _ => true

def opened : ScanLeaf → Traversal
  | .entities typeId entries => .ofEntities typeId entries
  | .sources typeId entries => .ofSources typeId entries
  | .join typeId entries targets => .ofJoin typeId entries targets

end ScanLeaf

/-- Unions over scans. -/
inductive ScanTree where
  | scan (leaf : ScanLeaf)
  | union (left right : ScanTree)

namespace ScanTree

def opened : ScanTree → Traversal
  | .scan leaf => leaf.opened
  | .union left right => left.opened.union right.opened

def leaves : ScanTree → List ScanLeaf
  | .scan leaf => [leaf]
  | .union left right => left.leaves ++ right.leaves

/-- The children of the unions of a tree, with their sides. -/
def children : ScanTree → List (Side × ScanTree)
  | .scan _ => []
  | .union left right => (.left, left) :: (.right, right) :: (left.children ++ right.children)

/-- The identities that a tree yields first, when it is opened and read by itself. -/
def Yields (tree : ScanTree) (ids : List EntityId) : Prop :=
  ∃ state, tree.opened.shape.reader.Reads tree.opened.state ids state

/-- Every entry of every index is a record that the scan of the index can decode. -/
def Intact (tree : ScanTree) : Prop :=
  ∀ leaf ∈ tree.leaves, ∀ entry ∈ leaf.entries, entry.Intact leaf.linked

/-- What an error of a tree comes from: an entry of an index, or the order of a child. -/
inductive Explains (tree : ScanTree) (error : QueryError) : Prop
  | entry {leaf : ScanLeaf} (member : leaf ∈ tree.leaves)
      (blamed : Entry.Blamed leaf.linked leaf.entries error)
  | order {side : Side} {child : ScanTree} {ids : List EntityId} {previous current : EntityId}
      (member : (side, child) ∈ tree.children) (yields : child.Yields (ids ++ [previous, current]))
      (below : current < previous)
      (violation : error = .childOutOfOrder .union side previous current)

theorem Explains.mono {tree other : ScanTree} {error : QueryError} (explains : tree.Explains error)
    (leaves : tree.leaves ⊆ other.leaves) (children : tree.children ⊆ other.children) :
    other.Explains error := by
  cases explains with
  | entry member blamed => exact .entry (leaves member) blamed
  | order member yields below violation => exact .order (children member) yields below violation

theorem accounts_leaf (leaf : ScanLeaf) :
    leaf.opened.shape.reader.Accounts leaf.opened.state
      (∀ entry ∈ leaf.entries, entry.Intact leaf.linked)
      (Entry.Blamed leaf.linked leaf.entries) := by
  cases leaf with
  | entities typeId entries =>
      have start : (Probe.ofEntries entries).Examines false entries :=
        Probe.examines_ofEntries false entries
      exact EntityWalk.accounts_of_examines start
  | sources typeId entries =>
      have start : (SourceWalk.ofEntries typeId entries).Examines entries :=
        ⟨rfl, Probe.examines_ofEntries true entries⟩
      exact SourceWalk.accounts_of_examines start
  | join typeId entries targets =>
      have start : (JoinWalk.ofEntries typeId entries targets).Examines entries :=
        ⟨rfl, rfl, Probe.examines_ofEntries true entries⟩
      exact JoinWalk.accounts_of_examines start

theorem accounts (tree : ScanTree) :
    tree.opened.shape.reader.Accounts tree.opened.state tree.Intact tree.Explains := by
  induction tree with
  | scan leaf =>
      have leafAccounts := accounts_leaf leaf
      constructor
      · intro ids state after reads step other member
        rw [List.mem_singleton.1 member]
        exact leafAccounts.ended reads step
      · intro ids state error after reads step
        exact .entry List.mem_cons_self (leafAccounts.failed reads step)
  | union left right leftAccounts rightAccounts =>
      have unionAccounts := Pair.accounts_union leftAccounts rightAccounts
      constructor
      · intro ids state after reads step
        obtain ⟨leftIntact, rightIntact⟩ := unionAccounts.ended reads step
        intro leaf member
        rcases List.mem_append.1 member with member | member
        · exact leftIntact leaf member
        · exact rightIntact leaf member
      · intro ids state error after reads step
        rcases unionAccounts.failed reads step with
          (explains | ⟨ids, previous, current, final, yields, below, violation⟩) |
            explains | ⟨ids, previous, current, final, yields, below, violation⟩
        · refine explains.mono (List.subset_append_left _ _) ?_
          intro child member
          simp [children, member]
        · exact .order (by simp [children]) ⟨final, yields⟩ below violation
        · refine explains.mono (List.subset_append_right _ _) ?_
          intro child member
          simp [children, member]
        · exact .order (by simp [children]) ⟨final, yields⟩ below violation

/--
A tree that can be collected has no damaged entry.  Where collecting it fails, the error is a fault
among the entries, unchanged, or reports a record that cannot be decoded or a child that is not in
order.
-/
theorem collect_accounts (tree : ScanTree) :
    (∀ ids, tree.opened.collect.1 = .ok ids → tree.Intact) ∧
      ∀ error, tree.opened.collect.1 = .error error → tree.Explains error :=
  tree.accounts.drain .start

/-- A failure without the detail that its class calls for comes out of a union as it is. -/
example :
    let failure : Failure := ⟨.internal, .store, "disk unplugged", none⟩
    let stored (id : UInt64) : Entry := .record ⟨Layout.encodeLocalId id, []⟩
    let tree : ScanTree := .union (.scan (.entities 1 [stored 1, stored 4]))
      (.scan (.entities 1 [stored 2, .fault (.reported failure), stored 5]))
    (match tree.opened.collect.1 with
      | .error error => some error.failure
      | .ok _ => none) = some failure := by
  decide +kernel

end ScanTree

end EntityQuery
