import EntityQuery.IdSet
import EntityQuery.Reader.Scan

/-!
# Sources with a link into a set

The reader walks a link index and yields each source whose link has its target in a given set, once
and in the order of its first such edge.  The index need not be sorted.
-/

namespace EntityQuery

/-- The walk of a link index against a set of targets. -/
structure JoinWalk where
  links : LinkWalk
  targets : IdSet
  /-- The sources that were read. -/
  distinct : List EntityId
  /-- A further source that was found but not read yet. -/
  lookahead : Option EntityId
  done : Bool
deriving DecidableEq

namespace JoinWalk

def ofEntries (typeId : TypeId) (entries : List Entry) (targets : IdSet) : JoinWalk :=
  ⟨.ofEntries typeId entries, targets, [], none, false⟩

/-- Find the next source that was not read yet and has its target in the set. -/
def seek (walk : JoinWalk) : Except QueryError Unit × JoinWalk :=
  match _ : walk.links.nextEdge with
  | (.error error, links) => (.error error, { walk with links })
  | (.ok none, links) => (.ok (), { walk with links, done := true })
  | (.ok (some edge), links) =>
      if !walk.distinct.contains edge.source && walk.targets.contains edge.target then
        (.ok (), { walk with links, lookahead := some edge.source })
      else
        { walk with links }.seek
termination_by walk.links.probe.budget
decreasing_by exact LinkWalk.budget_lt (by assumption)

/-- Make a source available, if there is a further one. -/
def fill (walk : JoinWalk) : Except QueryError Unit × JoinWalk :=
  if walk.done || walk.lookahead.isSome then (.ok (), walk) else walk.seek

def hasNext (walk : JoinWalk) : Except QueryError Bool × JoinWalk :=
  match walk.fill with
  | (.error error, filled) => (.error error, filled)
  | (.ok (), filled) => (.ok filled.lookahead.isSome, filled)

def next (walk : JoinWalk) : Yield × JoinWalk :=
  match walk.fill with
  | (.error error, filled) => (.error error, filled)
  | (.ok (), filled) =>
      (.ok filled.lookahead,
        { filled with
          distinct := filled.lookahead.toList ++ filled.distinct
          lookahead := none })

/-- Close the cursor, giving up what was found ahead. -/
def dispose (walk : JoinWalk) : Bool × JoinWalk :=
  let (released, probe) := walk.links.probe.dispose
  (released, { walk with links := { walk.links with probe }, lookahead := none })

/-- The most sources that can still be read. -/
def budget (walk : JoinWalk) : Nat :=
  walk.links.probe.budget + (if walk.lookahead.isSome then 1 else 0)

theorem budget_seek (walk : JoinWalk) (nothing : walk.lookahead = none) :
    walk.seek.2.budget ≤ walk.budget := by
  induction walk using JoinWalk.seek.induct with
  | case1 walk error links step =>
      have reading := walk.links.budget_nextEdge
      rw [seek, step]
      rw [step] at reading
      simp only [budget, LinkWalk.count] at *
      omega
  | case2 walk links step =>
      have reading := walk.links.budget_nextEdge
      rw [seek, step]
      rw [step] at reading
      simp only [budget, LinkWalk.count] at *
      omega
  | case3 walk edge links step accepted =>
      have reading := LinkWalk.budget_lt step
      rw [seek, step]
      simp only [accepted, if_true]
      simp only [budget, nothing, Option.isSome] at *
      simp only [if_true]
      omega
  | case4 walk edge links step rejected inductionHypothesis =>
      have reading := LinkWalk.budget_lt step
      rw [seek, step]
      simp only [rejected]
      have rest := inductionHypothesis nothing
      simp only [budget, nothing] at *
      simp only [Bool.false_eq_true, if_false]
      omega

theorem budget_fill (walk : JoinWalk) : walk.fill.2.budget ≤ walk.budget := by
  simp only [fill]
  split
  · exact Nat.le_refl _
  · rename_i nothing
    exact walk.budget_seek (by simp at nothing; exact nothing.2)

theorem budget_next (walk : JoinWalk) :
    walk.next.2.budget + Yield.count walk.next.1 ≤ walk.budget := by
  have filling := walk.budget_fill
  simp only [next]
  split
  · rename_i step
    rw [step] at filling
    simpa [Yield.count] using filling
  · rename_i filled step
    rw [step] at filling
    simp only [budget] at *
    cases found : filled.lookahead <;> simp only [found, Yield.count] at * <;> simp at * <;> omega

end JoinWalk

/-- The reader of the sources with a link into a set. -/
def joinReader : Reader JoinWalk where
  hasNext := JoinWalk.hasNext
  next := JoinWalk.next
  last := Reader.noReverse
  dispose := JoinWalk.dispose
  cursors walk := [walk.links.probe.cursor.usage]
  budget := JoinWalk.budget
  budget_next := JoinWalk.budget_next

end EntityQuery
