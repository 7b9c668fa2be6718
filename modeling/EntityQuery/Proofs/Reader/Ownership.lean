import EntityQuery.Proofs.Reader.Delivery
import EntityQuery.Proofs.Reader.Emission

/-!
# Who closes a cursor

A cursor is closed by the reader that holds it, when the reader is disposed, and at no other time.
A probe says whether it still holds its cursor; the invariant is that a held cursor has not been
closed and a released one has been closed once.  Asking, reading and stepping back keep what is
held, whatever they answer, because they change a probe only by moving its cursor.

The readers of one index inherit this from their probe.  A combination changes the states of its
children only by reading them, so it keeps what its children keep, and it releases what they
release.  How many cursors a reader has is told by its shape.
-/

namespace EntityQuery

/-! ## Probes -/

namespace Cursor

theorem closings_arrive (cursor : Cursor) (reading : Entry → Except QueryError Record)
    (index : Nat) : (cursor.arrive reading index).2.usage.closings = cursor.usage.closings := by
  rw [arrive]
  split <;> rfl

theorem closings_moveNext (cursor : Cursor) :
    cursor.moveNext.2.usage.closings = cursor.usage.closings := by
  rw [moveNext]
  split
  · exact cursor.closings_arrive _ 0
  · exact cursor.closings_arrive _ _
  · rfl

theorem closings_movePrevious (cursor : Cursor) :
    cursor.movePrevious.2.usage.closings = cursor.usage.closings := by
  have outside : (if cursor.entries = [] then cursor.leave .beforeFirst
      else cursor.arrive Entry.readBack (cursor.entries.length - 1)).2.usage.closings =
        cursor.usage.closings := by
    split
    · rfl
    · exact cursor.closings_arrive _ _
  rw [movePrevious]
  split
  · exact cursor.closings_arrive _ _
  · rfl
  · exact outside
  · exact outside

end Cursor

/-- How often a cursor has been closed, while it is held or after it was released. -/
def closingsOf (held : Bool) : Nat := if held then 0 else 1

/-- A probe that holds its cursor, or one that has released it. -/
structure Probe.Owned (held : Bool) (probe : Probe) : Prop where
  holds : probe.held = held
  closings : probe.cursor.usage.closings = closingsOf held

namespace Probe.Owned

variable {held : Bool} {probe : Probe}

theorem ofEntries (entries : List Entry) : (Probe.ofEntries entries).Owned true :=
  ⟨rfl, rfl⟩

theorem hasNext (owned : probe.Owned held) : probe.hasNext.2.Owned held := by
  have moving := probe.cursor.closings_moveNext.trans owned.closings
  rw [Probe.hasNext]
  split
  · exact owned
  · split
    · exact owned
    · split
      · split
        · rename_i step
          rw [step] at moving
          exact ⟨owned.holds, moving⟩
        · rename_i step
          rw [step] at moving
          exact ⟨owned.holds, moving⟩
      · exact owned

theorem advance (owned : probe.Owned held) : probe.advance.2.Owned held := by
  have asking := owned.hasNext
  rw [Probe.advance]
  split
  · rename_i step
    rwa [step] at asking
  · rename_i step
    rwa [step] at asking
  · rename_i step
    rw [step] at asking
    dsimp only
    split <;> exact ⟨asking.holds, asking.closings⟩

theorem stepBack (owned : probe.Owned held) : probe.stepBack.2.Owned held := by
  have moving := probe.cursor.closings_movePrevious.trans owned.closings
  rw [Probe.stepBack]
  dsimp only
  split
  · split
    all_goals
      rename_i step
      rw [step] at moving
      exact ⟨owned.holds, moving⟩
  · exact ⟨owned.holds, owned.closings⟩

theorem dispose (owned : probe.Owned held) : probe.dispose.2.Owned false := by
  rw [Probe.dispose]
  cases held with
  | true =>
      rw [if_pos owned.holds]
      exact ⟨rfl, congrArg (· + 1) owned.closings⟩
  | false =>
      rw [if_neg (by rw [owned.holds]; exact Bool.false_ne_true)]
      exact owned

theorem released (owned : probe.Owned false) : probe.dispose.1 = false := by
  rw [Probe.dispose, if_neg (by rw [owned.holds]; exact Bool.false_ne_true)]

end Probe.Owned

/-! ## Readers -/

/--
A reader of a number of cursors that closes each of them when it is first disposed.  The predicate
describes the states that hold the cursors and those that have released them.
-/
structure Reader.Owning {σ : Type} (reader : Reader σ) (count : Nat) (owned : Bool → σ → Prop) :
    Prop where
  hasNext {held : Bool} {state : σ} : owned held state → owned held (reader.hasNext state).2
  next {held : Bool} {state : σ} : owned held state → owned held (reader.next state).2
  last {held : Bool} {state : σ} : owned held state → owned held (reader.last state).2
  dispose {held : Bool} {state : σ} : owned held state → owned false (reader.dispose state).2
  released {state : σ} : owned false state → (reader.dispose state).1 = false
  closings {held : Bool} {state : σ} : owned held state →
    (reader.cursors state).map Usage.closings = List.replicate count (closingsOf held)

theorem Reader.Owning.drain {σ : Type} {reader : Reader σ} {count : Nat}
    {owned : Bool → σ → Prop} (owning : reader.Owning count owned) {held : Bool} {state : σ}
    (start : owned held state) : owned held (reader.drain state).2 := by
  induction state using Reader.drain.induct reader with
  | case1 state error after step =>
      have read := owning.next start
      rw [Reader.drain, step]
      rwa [step] at read
  | case2 state after step =>
      have read := owning.next start
      rw [Reader.drain, step]
      rwa [step] at read
  | case3 state id after step rest final drained inductionHypothesis =>
      have read := owning.next start
      rw [step] at read
      rw [Reader.drain, step]
      exact inductionHypothesis read

/-! ### Lists -/

theorem emptyReader_owning : emptyReader.Owning 0 fun _ _ => True where
  hasNext _ := trivial
  next _ := trivial
  last _ := trivial
  dispose _ := trivial
  released _ := rfl
  closings _ := rfl

theorem scriptReader_owning : scriptReader.Owning 0 fun _ _ => True where
  hasNext _ := trivial
  next _ := trivial
  last _ := trivial
  dispose _ := trivial
  released _ := rfl
  closings _ := rfl

/-- A walk that holds its set, or one that has released it. -/
def SetWalk.Owned (held : Bool) (walk : SetWalk) : Prop := walk.held.isSome = held

theorem SetWalk.held_stepped (walk : SetWalk) (set : IdSet) :
    (walk.stepped set).held = walk.held := by
  rw [stepped]
  split <;> rfl

theorem setReader_owning : setReader.Owning 0 SetWalk.Owned where
  hasNext {held walk} owned := by
    show (SetWalk.hasNext walk).2.held.isSome = held
    rw [SetWalk.hasNext]
    split
    · exact owned
    · rename_i set _
      exact (congrArg Option.isSome (walk.held_stepped set)).trans owned
  next {held walk} owned := by
    show (SetWalk.next walk).2.held.isSome = held
    rw [SetWalk.next]
    split
    · exact owned
    · rename_i set _
      exact (congrArg Option.isSome (walk.held_stepped set)).trans owned
  last {held walk} owned := by
    show (SetWalk.last walk).2.held.isSome = held
    rw [SetWalk.last]
    split <;> exact owned
  dispose _ := rfl
  released owned := owned
  closings _ := rfl

/-! ### Indexes -/

theorem EntityWalk.owned_next {held : Bool} {walk : EntityWalk} (owned : walk.probe.Owned held) :
    walk.next.2.probe.Owned held := by
  have advanced := owned.advance
  rw [next]
  split
  all_goals
    rename_i step
    rwa [step] at advanced

theorem EntityWalk.owned_last {held : Bool} {walk : EntityWalk} (owned : walk.probe.Owned held) :
    walk.last.2.probe.Owned held := by
  have stepped := owned.stepBack
  rw [last]
  split
  all_goals
    rename_i step
    rwa [step] at stepped

theorem Probe.closings_of_owned {held : Bool} {probe : Probe} (owned : probe.Owned held) :
    [probe.cursor.usage].map Usage.closings = List.replicate 1 (closingsOf held) :=
  congrArg (fun closings => [closings]) owned.closings

theorem entityReader_owning :
    entityReader.Owning 1 fun held walk => walk.probe.Owned held where
  hasNext owned := owned.hasNext
  next owned := EntityWalk.owned_next owned
  last owned := EntityWalk.owned_last owned
  dispose owned := owned.dispose
  released owned := owned.released
  closings owned := Probe.closings_of_owned owned

namespace LinkWalk

variable {held : Bool} {walk : LinkWalk}

theorem probe_takeEdge (walk : LinkWalk) (record : Record) :
    (walk.takeEdge record).2.probe = walk.probe := by
  rw [takeEdge]
  split <;> rfl

theorem owned_nextEdge (owned : walk.probe.Owned held) : walk.nextEdge.2.probe.Owned held := by
  have advanced := owned.advance
  rw [nextEdge]
  split
  · rename_i step
    rwa [step] at advanced
  · rename_i step
    rwa [step] at advanced
  · rename_i step
    rw [step] at advanced
    rwa [probe_takeEdge]

theorem owned_lastEdge (owned : walk.probe.Owned held) : walk.lastEdge.2.probe.Owned held := by
  have stepped := owned.stepBack
  rw [lastEdge]
  split
  · rename_i step
    rwa [step] at stepped
  · rename_i step
    rwa [step] at stepped
  · rename_i step
    rw [step] at stepped
    rwa [probe_takeEdge]

end LinkWalk

theorem linkReader_owning : linkReader.Owning 1 fun held walk => walk.probe.Owned held where
  hasNext owned := owned.hasNext
  next owned := LinkWalk.owned_nextEdge owned
  last owned := LinkWalk.owned_lastEdge owned
  dispose owned := owned.dispose
  released owned := owned.released
  closings owned := Probe.closings_of_owned owned

namespace SourceWalk

variable {held : Bool} {walk : SourceWalk}

theorem owned_seek (owned : walk.links.probe.Owned held) :
    walk.seek.2.links.probe.Owned held := by
  induction walk using seek.induct with
  | case1 walk error links step =>
      have reading := LinkWalk.owned_nextEdge owned
      rw [seek, step]
      rwa [step] at reading
  | case2 walk links step =>
      have reading := LinkWalk.owned_nextEdge owned
      rw [seek, step]
      rwa [step] at reading
  | case3 walk edge links step repeated inductionHypothesis =>
      have reading := LinkWalk.owned_nextEdge owned
      rw [step] at reading
      rw [seek, step]
      dsimp only
      rw [if_pos repeated]
      exact inductionHypothesis reading
  | case4 walk edge links step fresh =>
      have reading := LinkWalk.owned_nextEdge owned
      rw [step] at reading
      rw [seek, step]
      simp only [fresh, if_false]
      exact reading

theorem owned_fill (owned : walk.links.probe.Owned held) :
    walk.fill.2.links.probe.Owned held := by
  rw [fill]
  split
  · exact owned
  · exact owned_seek owned

end SourceWalk

theorem sourceReader_owning :
    sourceReader.Owning 1 fun held walk => walk.links.probe.Owned held where
  hasNext {held walk} owned := by
    apply sourceReader_looksAhead.holds_hasNext fun walk => walk.links.probe.Owned held
    exact SourceWalk.owned_fill owned
  next {held walk} owned := by
    apply sourceReader_looksAhead.holds_next fun walk => walk.links.probe.Owned held
    · exact SourceWalk.owned_fill owned
    · intro after filled
      exact filled
  last owned := LinkWalk.owned_lastEdge owned
  dispose owned := owned.dispose
  released owned := owned.released
  closings owned := Probe.closings_of_owned owned

namespace JoinWalk

variable {held : Bool} {walk : JoinWalk}

theorem owned_seek (owned : walk.links.probe.Owned held) :
    walk.seek.2.links.probe.Owned held := by
  induction walk using seek.induct with
  | case1 walk error links step =>
      have reading := LinkWalk.owned_nextEdge owned
      rw [seek, step]
      rwa [step] at reading
  | case2 walk links step =>
      have reading := LinkWalk.owned_nextEdge owned
      rw [seek, step]
      rwa [step] at reading
  | case3 walk edge links step accepted =>
      have reading := LinkWalk.owned_nextEdge owned
      rw [step] at reading
      rw [seek, step]
      simp only [accepted, if_true]
      exact reading
  | case4 walk edge links step rejected inductionHypothesis =>
      have reading := LinkWalk.owned_nextEdge owned
      rw [step] at reading
      rw [seek, step]
      simp only [rejected]
      exact inductionHypothesis reading

theorem owned_fill (owned : walk.links.probe.Owned held) :
    walk.fill.2.links.probe.Owned held := by
  rw [fill]
  split
  · exact owned
  · exact owned_seek owned

end JoinWalk

theorem joinReader_owning :
    joinReader.Owning 1 fun held walk => walk.links.probe.Owned held where
  hasNext {held walk} owned := by
    apply joinReader_looksAhead.holds_hasNext fun walk => walk.links.probe.Owned held
    exact JoinWalk.owned_fill owned
  next {held walk} owned := by
    apply joinReader_looksAhead.holds_next fun walk => walk.links.probe.Owned held
    · exact JoinWalk.owned_fill owned
    · intro after filled
      exact filled
  last owned := owned
  dispose owned := owned.dispose
  released owned := owned.released
  closings owned := Probe.closings_of_owned owned

/-! ### Combinations -/

/-- What holds of both children of a pair. -/
structure Pair.Within {σ τ : Type} (onLeft : σ → Prop) (onRight : τ → Prop) (pair : Pair σ τ) :
    Prop where
  left : onLeft pair.left.state
  right : onRight pair.right.state

section Combinations

variable {σ τ : Type} {left : Reader σ} {right : Reader τ} {onLeft : σ → Prop}
  {onRight : τ → Prop} {pair : Pair σ τ}

/-- Filling a child does nothing to its state but read it. -/
theorem Feed.state_fill {combination : Combination} {side : Side} {feed : Feed σ}
    (keeps : ∀ {state}, onLeft state → onLeft (left.next state).2) (kept : onLeft feed.state) :
    onLeft (feed.fill left combination side).2.state := by
  have filling := feed.filling_fill left combination side
  generalize feed.fill left combination side = result at filling
  have reading := keeps kept
  cases filling with
  | kept => exact kept
  | failed _ _ step | ended _ _ step | found _ _ step | refused _ _ step =>
      rwa [step] at reading

namespace Pair

section Rounds

variable (keepsLeft : ∀ {state}, onLeft state → onLeft (left.next state).2)
  (keepsRight : ∀ {state}, onRight state → onRight (right.next state).2)
include keepsLeft keepsRight

theorem Within.fillBoth (within : pair.Within onLeft onRight) (combination : Combination) :
    (pair.fillBoth left right combination).2.Within onLeft onRight := by
  have filled : (pair.fillLeft left combination).2.Within onLeft onRight :=
    ⟨Feed.state_fill keepsLeft within.left, within.right⟩
  rw [Pair.fillBoth]
  split
  · rename_i step
    rwa [step] at filled
  · rename_i step
    rw [step] at filled
    exact ⟨filled.left, Feed.state_fill keepsRight filled.right⟩

theorem Within.fillUntilEnd (within : pair.Within onLeft onRight) (combination : Combination) :
    (pair.fillUntilEnd left right combination).2.Within onLeft onRight := by
  have filled : (pair.fillLeft left combination).2.Within onLeft onRight :=
    ⟨Feed.state_fill keepsLeft within.left, within.right⟩
  rw [Pair.fillUntilEnd]
  split
  · rename_i step
    rwa [step] at filled
  · rename_i step
    rw [step] at filled
    split
    · exact filled
    · exact ⟨filled.left, Feed.state_fill keepsRight filled.right⟩

omit keepsLeft keepsRight in
theorem Within.emitOnce (within : pair.Within onLeft onRight) (id : EntityId) :
    (pair.emitOnce id).2.Within onLeft onRight := by
  rw [Pair.emitOnce]
  split
  · exact within
  · exact ⟨within.left, within.right⟩

theorem Within.unionStep (within : pair.Within onLeft onRight) :
    (pair.unionStep left right).2.Within onLeft onRight := by
  have filled := within.fillBoth keepsLeft keepsRight .union
  rw [Pair.unionStep]
  split
  · rename_i step
    rwa [step] at filled
  · rename_i step
    rw [step] at filled
    split
    · exact filled
    · rename_i id taken least
      have takenWithin : taken.Within onLeft onRight := by
        rcases takeLeast_cases least with ⟨_, _, rfl⟩ | ⟨_, _, rfl⟩ | ⟨_, _, rfl⟩
        all_goals exact ⟨filled.left, filled.right⟩
      exact takenWithin.emitOnce id

theorem Within.intersectionStep (within : pair.Within onLeft onRight) :
    (pair.intersectionStep left right).2.Within onLeft onRight := by
  have filled := within.fillUntilEnd keepsLeft keepsRight .intersection
  rw [Pair.intersectionStep]
  split
  · rename_i step
    rwa [step] at filled
  · rename_i step
    rw [step] at filled
    split
    · exact filled
    · split
      · rename_i leftId rightId _ _
        split
        · exact ⟨filled.left, filled.right⟩
        · split
          · exact ⟨filled.left, filled.right⟩
          · have taken : Within onLeft onRight (Pair.takeRight (Pair.takeLeft _)) :=
              ⟨filled.left, filled.right⟩
            exact taken.emitOnce leftId
      · exact filled

end Rounds

/-- Rounds that change the children in no way that matters. -/
def Round.Keeps (round : Round left right) (onLeft : σ → Prop) (onRight : τ → Prop) : Prop :=
  ∀ {pair : Pair σ τ}, pair.Within onLeft onRight → (round.step pair).2.Within onLeft onRight

theorem Within.fetch {round : Round left right} (keeps : round.Keeps onLeft onRight)
    (within : pair.Within onLeft onRight) : (pair.fetch round).2.Within onLeft onRight := by
  induction pair using fetch.induct round with
  | case1 pair found after step =>
      have kept := keeps within
      rw [Pair.fetch, step]
      rwa [step] at kept
  | case2 pair after step inductionHypothesis =>
      have kept := keeps within
      rw [step] at kept
      rw [Pair.fetch, step]
      exact inductionHypothesis kept

theorem Within.hasNext {round : Round left right} (keeps : round.Keeps onLeft onRight)
    (within : pair.Within onLeft onRight) : (pair.hasNext round).2.Within onLeft onRight := by
  have fetched := within.fetch keeps
  rw [Pair.hasNext]
  split
  · exact within
  · split
    all_goals
      rename_i step
      rw [step] at fetched
      exact ⟨fetched.left, fetched.right⟩

theorem Within.next {round : Round left right} (keeps : round.Keeps onLeft onRight)
    (within : pair.Within onLeft onRight) : (pair.next round).2.Within onLeft onRight := by
  rw [Pair.next]
  split
  · exact ⟨within.left, within.right⟩
  · exact within.fetch keeps

end Pair

theorem pairReader_owning {leftCount rightCount : Nat} {leftOwned : Bool → σ → Prop}
    {rightOwned : Bool → τ → Prop} (leftOwning : left.Owning leftCount leftOwned)
    (rightOwning : right.Owning rightCount rightOwned) {round : Pair.Round left right}
    (keeps : ∀ held, round.Keeps (leftOwned held) (rightOwned held)) :
    (pairReader round).Owning (leftCount + rightCount) fun held pair =>
      pair.Within (leftOwned held) (rightOwned held) where
  hasNext within := within.hasNext (keeps _)
  next within := within.next (keeps _)
  last within := within
  dispose within := ⟨leftOwning.dispose within.left, rightOwning.dispose within.right⟩
  released within := by
    have leftReleased := leftOwning.released within.left
    have rightReleased := rightOwning.released within.right
    exact Bool.or_eq_false_iff.2 ⟨leftReleased, rightReleased⟩
  closings within := by
    have leftClosings := leftOwning.closings within.left
    have rightClosings := rightOwning.closings within.right
    rw [← List.replicate_append_replicate, ← leftClosings, ← rightClosings]
    exact List.map_append

end Combinations

/-! ## Traversals -/

namespace ReaderShape

/-- The number of cursors of a reader. -/
def cursorCount : ReaderShape → Nat
  | .empty | .set | .script => 0
  | .entities | .links | .sources | .join => 1
  | .union left right | .intersection left right => left.cursorCount + right.cursorCount

/-- The states that hold what a reader was built with, and those that have released it. -/
def Owned : (shape : ReaderShape) → Bool → shape.State → Prop
  | .empty, _, _ | .script, _, _ => True
  | .set, held, walk => SetWalk.Owned held walk
  | .entities, held, walk => Probe.Owned held (EntityWalk.probe walk)
  | .links, held, walk => Probe.Owned held (LinkWalk.probe walk)
  | .sources, held, walk => Probe.Owned held (SourceWalk.links walk).probe
  | .join, held, walk => Probe.Owned held (JoinWalk.links walk).probe
  | .union left right, held, pair | .intersection left right, held, pair =>
      Pair.Within (left.Owned held) (right.Owned held) pair

theorem owning (shape : ReaderShape) :
    shape.reader.Owning shape.cursorCount shape.Owned := by
  induction shape with
  | empty => exact emptyReader_owning
  | set => exact setReader_owning
  | script => exact scriptReader_owning
  | entities => exact entityReader_owning
  | links => exact linkReader_owning
  | sources => exact sourceReader_owning
  | join => exact joinReader_owning
  | union left right leftOwning rightOwning =>
      apply pairReader_owning leftOwning rightOwning
      intro held pair within
      exact within.unionStep leftOwning.next rightOwning.next
  | intersection left right leftOwning rightOwning =>
      apply pairReader_owning leftOwning rightOwning
      intro held pair within
      exact within.intersectionStep leftOwning.next rightOwning.next

end ReaderShape

namespace Traversal

variable {held : Bool} {count : Nat} {traversal : Traversal}

/-- A traversal of a number of cursors that holds them, or one that has released them. -/
structure Owns (held : Bool) (count : Nat) (traversal : Traversal) : Prop where
  owned : traversal.shape.Owned held traversal.state
  count : traversal.shape.cursorCount = count

theorem owns_empty : empty.Owns true 0 := ⟨trivial, rfl⟩

theorem owns_ofSet (set : IdSet) : (ofSet set).Owns true 0 := ⟨rfl, rfl⟩

theorem owns_ofEntities (typeId : TypeId) (entries : List Entry) :
    (ofEntities typeId entries).Owns true 1 :=
  ⟨.ofEntries entries, rfl⟩

theorem owns_ofSources (typeId : TypeId) (entries : List Entry) :
    (ofSources typeId entries).Owns true 1 :=
  ⟨.ofEntries entries, rfl⟩

theorem owns_ofJoin (typeId : TypeId) (entries : List Entry) (targets : IdSet) :
    (ofJoin typeId entries targets).Owns true 1 :=
  ⟨.ofEntries entries, rfl⟩

theorem Owns.union {leftCount rightCount : Nat} {left right : Traversal}
    (leftOwns : left.Owns held leftCount) (rightOwns : right.Owns held rightCount) :
    (left.union right).Owns held (leftCount + rightCount) where
  owned := ⟨leftOwns.owned, rightOwns.owned⟩
  count := by
    show left.shape.cursorCount + right.shape.cursorCount = leftCount + rightCount
    rw [leftOwns.count, rightOwns.count]

theorem Owns.intersection {leftCount rightCount : Nat} {left right : Traversal}
    (leftOwns : left.Owns held leftCount) (rightOwns : right.Owns held rightCount) :
    (left.intersection right).Owns held (leftCount + rightCount) where
  owned := ⟨leftOwns.owned, rightOwns.owned⟩
  count := by
    show left.shape.cursorCount + right.shape.cursorCount = leftCount + rightCount
    rw [leftOwns.count, rightOwns.count]

theorem Owns.closings (owns : traversal.Owns held count) :
    traversal.cursors.map Usage.closings = List.replicate count (closingsOf held) := by
  rw [← owns.count]
  exact traversal.shape.owning.closings owns.owned

theorem Owns.hasNext (owns : traversal.Owns held count) : traversal.hasNext.2.Owns held count :=
  ⟨traversal.shape.owning.hasNext owns.owned, owns.count⟩

theorem Owns.dispose (owns : traversal.Owns held count) : traversal.dispose.2.Owns false count :=
  ⟨traversal.shape.owning.dispose owns.owned, owns.count⟩

theorem Owns.drain (owns : traversal.Owns held count) : traversal.drain.2.Owns held count :=
  ⟨traversal.shape.owning.drain owns.owned, owns.count⟩

/-- A traversal that is given up has closed each of its cursors once. -/
theorem Owns.retire (owns : traversal.Owns held count) :
    traversal.retire.map Usage.closings = List.replicate count 1 :=
  owns.dispose.closings

/-- Only disposing releases what is held. -/
theorem Owns.call (owns : traversal.Owns held count) {call : ReaderCall}
    (stays : call ≠ .dispose) : (traversal.call call).2.Owns held count := by
  have owning := traversal.shape.owning
  cases call with
  | hasNext => exact owns.hasNext
  | next => exact ⟨owning.next owns.owned, owns.count⟩
  | last => exact ⟨owning.last owns.owned, owns.count⟩
  | dispose => exact absurd rfl stays
  | target => exact owns

theorem Owns.callAll (owns : traversal.Owns held count) (calls : List ReaderCall) :
    (Traversal.callAll calls traversal).2.Owns (held && decide (.dispose ∉ calls)) count := by
  induction calls generalizing held traversal with
  | nil => simpa [Traversal.callAll] using owns
  | cons call rest inductionHypothesis =>
      by_cases disposes : call = .dispose
      · subst disposes
        have disposed : (traversal.call .dispose).2.Owns false count := owns.dispose
        simpa [Traversal.callAll] using inductionHypothesis disposed
      · have stays := inductionHypothesis (owns.call disposes)
        simpa [Traversal.callAll, Ne.symm disposes] using stays

/--
A traversal of a number of cursors, none of them closed yet.  After any calls each of them has been
closed once if one of the calls was to dispose, and not at all otherwise; giving the traversal up
then closes those that are open, and disposing it again finds nothing to release.
-/
structure ClosesOnce (opened : Nat) (traversal : Traversal) : Prop where
  closings : ∀ calls, (callAll calls traversal).2.cursors.map Usage.closings =
    List.replicate opened (if .dispose ∈ calls then 1 else 0)
  retired : ∀ calls,
    (callAll calls traversal).2.retire.map Usage.closings = List.replicate opened 1
  disposed : ∀ calls, .dispose ∈ calls → (callAll calls traversal).2.dispose.1 = false

theorem Owns.closesOnce (owns : traversal.Owns true count) : traversal.ClosesOnce count where
  closings calls := by
    rw [(owns.callAll calls).closings]
    by_cases disposes : .dispose ∈ calls <;> simp [disposes, closingsOf]
  retired calls := (owns.callAll calls).retire
  disposed calls disposes := by
    have released := owns.callAll calls
    rw [decide_eq_false (not_not_intro disposes), Bool.and_false] at released
    exact (Traversal.callAll calls traversal).2.shape.owning.released released.owned

end Traversal

end EntityQuery
