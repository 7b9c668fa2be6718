import EntityQuery.Index.Layout
import EntityQuery.Index.Probe
import EntityQuery.Reader.Basic

/-!
# Readers of one index

These readers walk one index through a probe and decode its records: the entities of a type, the
edges of a link, and the distinct sources of a link.

A record that cannot be decoded is an error of the step that takes it; the reader goes on behind it.
-/

namespace EntityQuery

/-! ## The entities of a type -/

structure EntityWalk where
  typeId : TypeId
  probe : Probe
deriving DecidableEq, Repr

namespace EntityWalk

def ofEntries (typeId : TypeId) (entries : List Entry) : EntityWalk :=
  ⟨typeId, .ofEntries entries⟩

/-- The identity of a record, if there is a record. -/
def decode (typeId : TypeId) : Option Record → Yield
  | none => .ok none
  | some record => (Layout.decodeEntityKey typeId record.key).map some

def answer {α : Type} (walk : EntityWalk) (result : α × Probe) : α × EntityWalk :=
  (result.1, { walk with probe := result.2 })

def next (walk : EntityWalk) : Yield × EntityWalk :=
  match walk.probe.advance with
  | (.error error, probe) => (.error error, { walk with probe })
  | (.ok record, probe) => (decode walk.typeId record, { walk with probe })

def last (walk : EntityWalk) : Yield × EntityWalk :=
  match walk.probe.stepBack with
  | (.error error, probe) => (.error error, { walk with probe })
  | (.ok record, probe) => (decode walk.typeId record, { walk with probe })

theorem count_decode (typeId : TypeId) (record : Option Record) :
    Yield.count (decode typeId record) ≤ Probe.taken (.ok record) := by
  cases record with
  | none => simp [decode, Yield.count, Probe.taken]
  | some record =>
      simp only [decode]
      cases Layout.decodeEntityKey typeId record.key <;>
        simp [Except.map, Yield.count, Probe.taken]

theorem budget_next (walk : EntityWalk) :
    walk.next.2.probe.budget + Yield.count walk.next.1 ≤ walk.probe.budget := by
  have taking := walk.probe.budget_advance
  simp only [next]
  split
  · rename_i step
    rw [step] at taking
    simp only [Yield.count, Probe.taken] at *
    omega
  · rename_i record probe step
    rw [step] at taking
    have decoding := count_decode walk.typeId record
    simp only at *
    omega

end EntityWalk

def entityReader : Reader EntityWalk where
  hasNext walk := walk.answer walk.probe.hasNext
  next := EntityWalk.next
  last := EntityWalk.last
  dispose walk := walk.answer walk.probe.dispose
  cursors walk := [walk.probe.cursor.usage]
  budget walk := walk.probe.budget
  budget_next := EntityWalk.budget_next

/-! ## The edges of a link -/

structure LinkWalk where
  typeId : TypeId
  probe : Probe
  /-- The target of the edge that was read last. -/
  target : Option EntityId
deriving DecidableEq, Repr

/-- The source and the target of one edge. -/
structure Edge where
  source : EntityId
  target : EntityId
deriving DecidableEq, Repr

namespace LinkWalk

def ofEntries (typeId : TypeId) (entries : List Entry) : LinkWalk :=
  ⟨typeId, .ofEntries entries, none⟩

/-- The edge of a record. -/
def decodeEdge (typeId : TypeId) (record : Record) : Except QueryError Edge :=
  match Layout.decodeEntityKey typeId record.key with
  | .error error => .error error
  | .ok source => (Layout.decodeLinkTarget record.value).map fun target => ⟨source, target⟩

def answer {α : Type} (walk : LinkWalk) (result : α × Probe) : α × LinkWalk :=
  (result.1, { walk with probe := result.2 })

/-- Take the edge of a record, remembering its target. -/
def takeEdge (walk : LinkWalk) (record : Record) : Except QueryError (Option Edge) × LinkWalk :=
  match decodeEdge walk.typeId record with
  | .error error => (.error error, walk)
  | .ok edge => (.ok (some edge), { walk with target := some edge.target })

/-- Read one edge forwards; at the end no target is remembered. -/
def nextEdge (walk : LinkWalk) : Except QueryError (Option Edge) × LinkWalk :=
  match walk.probe.advance with
  | (.error error, probe) => (.error error, { walk with probe })
  | (.ok none, probe) => (.ok none, { walk with probe, target := none })
  | (.ok (some record), probe) => { walk with probe }.takeEdge record

def lastEdge (walk : LinkWalk) : Except QueryError (Option Edge) × LinkWalk :=
  match walk.probe.stepBack with
  | (.error error, probe) => (.error error, { walk with probe })
  | (.ok none, probe) => (.ok none, { walk with probe })
  | (.ok (some record), probe) => { walk with probe }.takeEdge record

def sourceOf (result : Except QueryError (Option Edge) × LinkWalk) : Yield × LinkWalk :=
  (result.1.map (Option.map Edge.source), result.2)

/-- Read one source forwards, once for each of its edges. -/
def next (walk : LinkWalk) : Yield × LinkWalk := sourceOf walk.nextEdge

/-- One if an edge was read, and zero otherwise. -/
def count : Except QueryError (Option Edge) → Nat
  | .ok (some _) => 1
  | _ => 0

theorem budget_nextEdge (walk : LinkWalk) :
    walk.nextEdge.2.probe.budget + count walk.nextEdge.1 ≤ walk.probe.budget := by
  have taking := walk.probe.budget_advance
  simp only [nextEdge]
  split
  · rename_i step
    rw [step] at taking
    simp only [count, Probe.taken] at *
    omega
  · rename_i step
    rw [step] at taking
    simp only [count, Probe.taken] at *
    omega
  · rename_i record probe step
    rw [step] at taking
    simp only [takeEdge]
    split <;> simp only [count, Probe.taken] at * <;> omega

theorem budget_next (walk : LinkWalk) :
    walk.next.2.probe.budget + Yield.count walk.next.1 ≤ walk.probe.budget := by
  have reading := walk.budget_nextEdge
  simp only [next, sourceOf]
  have counting : Yield.count (walk.nextEdge.1.map (Option.map Edge.source)) =
      count walk.nextEdge.1 := by
    cases walk.nextEdge.1 with
    | error error => simp [Except.map, Yield.count, count]
    | ok found => cases found <;> simp [Except.map, Yield.count, count]
  omega

theorem budget_lt {walk after : LinkWalk} {edge : Edge}
    (step : walk.nextEdge = (.ok (some edge), after)) :
    after.probe.budget < walk.probe.budget := by
  have reading := walk.budget_nextEdge
  rw [step] at reading
  simp only [count] at reading
  omega

end LinkWalk

/-- The reader of the sources of a link index, one for each edge. -/
def linkReader : Reader LinkWalk where
  hasNext walk := walk.answer walk.probe.hasNext
  next := LinkWalk.next
  last walk := LinkWalk.sourceOf walk.lastEdge
  dispose walk := walk.answer walk.probe.dispose
  cursors walk := [walk.probe.cursor.usage]
  budget walk := walk.probe.budget
  budget_next := LinkWalk.budget_next

/-! ## The distinct sources of a link -/

/-- The walk of the sources of a link index, where edges of one source are neighbours. -/
structure SourceWalk where
  links : LinkWalk
  /-- The source that was read last. -/
  previous : Option EntityId
  /-- A further source that was found but not read yet. -/
  lookahead : Option EntityId
deriving DecidableEq, Repr

namespace SourceWalk

def ofEntries (typeId : TypeId) (entries : List Entry) : SourceWalk :=
  ⟨.ofEntries typeId entries, none, none⟩

/-- Find the next source that differs from the one read last. -/
def seek (walk : SourceWalk) : Except QueryError Unit × SourceWalk :=
  match _ : walk.links.nextEdge with
  | (.error error, links) => (.error error, { walk with links })
  | (.ok none, links) => (.ok (), { walk with links })
  | (.ok (some edge), links) =>
      if walk.previous = some edge.source then
        { walk with links }.seek
      else
        (.ok (), { walk with links, lookahead := some edge.source })
termination_by walk.links.probe.budget
decreasing_by exact LinkWalk.budget_lt (by assumption)

/-- Make a source available, if there is a further one. -/
def fill (walk : SourceWalk) : Except QueryError Unit × SourceWalk :=
  if walk.lookahead.isSome then (.ok (), walk) else walk.seek

def hasNext (walk : SourceWalk) : Except QueryError Bool × SourceWalk :=
  match walk.fill with
  | (.error error, filled) => (.error error, filled)
  | (.ok (), filled) => (.ok filled.lookahead.isSome, filled)

def next (walk : SourceWalk) : Yield × SourceWalk :=
  match walk.fill with
  | (.error error, filled) => (.error error, filled)
  | (.ok (), filled) =>
      (.ok filled.lookahead,
        { filled with
          previous := filled.lookahead.or filled.previous
          lookahead := none })

/-- Step one edge backwards, giving up what was found ahead. -/
def last (walk : SourceWalk) : Yield × SourceWalk :=
  let (found, links) := LinkWalk.sourceOf walk.links.lastEdge
  (found, { walk with links, lookahead := none })

/-- Close the cursor, giving up what was found ahead. -/
def dispose (walk : SourceWalk) : Bool × SourceWalk :=
  let (released, probe) := walk.links.probe.dispose
  (released, { walk with links := { walk.links with probe }, lookahead := none })

/-- The most sources that can still be read. -/
def budget (walk : SourceWalk) : Nat :=
  walk.links.probe.budget + (if walk.lookahead.isSome then 1 else 0)

theorem budget_seek (walk : SourceWalk) (nothing : walk.lookahead = none) :
    walk.seek.2.budget ≤ walk.budget := by
  induction walk using SourceWalk.seek.induct with
  | case1 walk error links step =>
      have reading := walk.links.budget_nextEdge
      rw [seek, step]
      rw [step] at reading
      simp only [budget, LinkWalk.count] at *
      omega
  | case2 walk links step =>
      have reading := walk.links.budget_nextEdge
      rw [seek, step]
      rw [step] at reading
      simp only [budget, LinkWalk.count] at *
      omega
  | case3 walk edge links step repeated inductionHypothesis =>
      have reading := LinkWalk.budget_lt step
      rw [seek, step]
      show (if _ then _ else _ : Except QueryError Unit × SourceWalk).2.budget ≤ _
      rw [if_pos repeated]
      have rest := inductionHypothesis nothing
      simp only [budget, nothing] at *
      omega
  | case4 walk edge links step fresh =>
      have reading := LinkWalk.budget_lt step
      rw [seek, step]
      simp only [fresh, if_false]
      simp only [budget, nothing, Option.isSome] at *
      simp only [if_true]
      omega

theorem budget_fill (walk : SourceWalk) : walk.fill.2.budget ≤ walk.budget := by
  simp only [fill]
  split
  · exact Nat.le_refl _
  · rename_i nothing
    exact walk.budget_seek (by simpa using nothing)

theorem budget_next (walk : SourceWalk) :
    walk.next.2.budget + Yield.count walk.next.1 ≤ walk.budget := by
  have filling := walk.budget_fill
  simp only [next]
  split
  · rename_i step
    rw [step] at filling
    simpa [Yield.count] using filling
  · rename_i filled step
    rw [step] at filling
    simp only [budget] at *
    cases found : filled.lookahead <;> simp only [found, Yield.count] at * <;> simp at * <;> omega

end SourceWalk

/-- The reader of the distinct sources of a link index. -/
def sourceReader : Reader SourceWalk where
  hasNext := SourceWalk.hasNext
  next := SourceWalk.next
  last := SourceWalk.last
  dispose := SourceWalk.dispose
  cursors walk := [walk.links.probe.cursor.usage]
  budget := SourceWalk.budget
  budget_next := SourceWalk.budget_next

end EntityQuery
