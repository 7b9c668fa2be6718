import EntityQuery.Proofs.Reader.Moves
import EntityQuery.Proofs.Reader.Scan

/-!
# Reading the sources of a link backwards

The distinct sources of a link are read from the index of its edges or from their cached set.  The
walk of edges remembers the source it read last, passes over further edges of it, and steps back one
edge at a time.  Compared with the walk of the set this shows in two points.

* Stepping back does not forget the source that was read last.  If that source lies ahead again, the
  walk of edges passes it over.
* Stepping back twice crosses two edges, which may be of one source.

Moves *keep in step* if neither arises.  Then the walk of edges always stands on the first edge of
the source that the walk of the set stands on, or has passed all edges of some sources and none of
the others, and both walks reply alike.
-/

namespace EntityQuery

/-! ## The edges of a link -/

namespace LinkWalk

/-- The record of an edge in the index of its link. -/
def recordOf (edge : StoredEdge) : Record :=
  ⟨Layout.encodeLocalId edge.source.localId, Layout.encodeLinkTarget edge.target⟩

/-- A walk that can still move forwards and has passed a number of edges. -/
structure Stands (walk : LinkWalk) (edges : List StoredEdge) (passed : Nat) : Prop where
  ofType : ∀ edge ∈ edges, edge.source.typeId = walk.typeId
  probe : walk.probe.Stands (edges.map recordOf) passed false

variable {walk : LinkWalk} {edges : List StoredEdge} {passed : Nat}

theorem takeEdge_recordOf {edge : StoredEdge} (ofType : edge.source.typeId = walk.typeId) :
    walk.takeEdge (recordOf edge) =
      (.ok (some ⟨edge.source, edge.target⟩), { walk with target := some edge.target }) := by
  have source := Layout.decodeEntityKey_encodeLocalId edge.source
  rw [ofType] at source
  simp [takeEdge, decodeEdge, recordOf, source, Layout.decodeLinkTarget_encodeLinkTarget,
    Except.map]

theorem nextEdge_of_lt (stands : walk.Stands edges passed) (inRange : passed < edges.length) :
    ∃ after, walk.nextEdge =
        (.ok (some ⟨edges[passed].source, edges[passed].target⟩), after) ∧
      after.Stands edges (passed + 1) := by
  have records : passed < (edges.map recordOf).length := by simpa using inRange
  have present : standingOn (edges.map recordOf) (passed + 1) = some (recordOf edges[passed]) := by
    rw [standingOn_map, standingOn, List.getElem?_eq_getElem inRange]
    rfl
  obtain ⟨after, asked, standsAsked⟩ := Probe.hasNext_of_lt stands.probe records
  obtain ⟨taken, advanced, standsTaken⟩ := Probe.advance_of_hasNext asked standsAsked present
  refine ⟨{ walk with probe := taken, target := some edges[passed].target }, ?_, stands.ofType,
    standsTaken⟩
  rw [nextEdge, advanced]
  exact takeEdge_recordOf (stands.ofType _ (List.getElem_mem inRange))

theorem nextEdge_of_le (stands : walk.Stands edges passed) (all : edges.length ≤ passed) :
    ∃ after, walk.nextEdge = (.ok none, after) := by
  have records : (edges.map recordOf).length ≤ passed := by simpa using all
  obtain ⟨after, asked, _⟩ := Probe.hasNext_of_le stands.probe records
  exact ⟨_, by rw [nextEdge, Probe.advance_of_end asked]⟩

/-- Stepping back answers the source of the edge before. -/
theorem lastEdge_of_stands (stands : walk.Stands edges passed) :
    ∃ after, sourceOf walk.lastEdge =
        (.ok ((standingOn edges (steppedBack edges.length passed)).map StoredEdge.source),
          after) ∧
      after.Stands edges (steppedBack edges.length passed) := by
  obtain ⟨cursor, stepped, standsBack⟩ :=
    Probe.stepBack_of_stands stands.probe.held stands.probe.cursor
  rw [List.length_map, standingOn_map] at stepped
  rw [List.length_map] at standsBack
  have probe : Probe.Stands { walk.probe with cursor, answer := none } (edges.map recordOf)
      (steppedBack edges.length passed) false :=
    ⟨stands.probe.held, standsBack, rfl, stands.probe.unexhausted⟩
  rw [lastEdge, stepped]
  cases found : standingOn edges (steppedBack edges.length passed) with
  | none => exact ⟨_, rfl, stands.ofType, probe⟩
  | some edge =>
      dsimp only [Option.map_some]
      rw [takeEdge_recordOf]
      · exact ⟨_, rfl, stands.ofType, probe⟩
      · exact stands.ofType edge (mem_of_standingOn found)

end LinkWalk

/-! ## The distinct sources of a link -/

namespace SourceWalk

theorem distinctSources_of_ne {previous : Option EntityId} {edge : StoredEdge}
    (fresh : previous ≠ some edge.source) (rest : List StoredEdge) :
    distinctSources previous (edge :: rest) =
      edge.source :: distinctSources (some edge.source) rest := by
  rw [distinctSources, if_neg fresh]

theorem distinctSources_append {previous : Option EntityId} {first second : List StoredEdge}
    (fresh : ∀ edge ∈ second, previous ≠ some edge.source)
    (apart : ∀ edge ∈ first, ∀ other ∈ second, edge.source ≠ other.source) :
    distinctSources previous (first ++ second) =
      distinctSources previous first ++ distinctSources none second := by
  induction first generalizing previous with
  | nil =>
      cases second with
      | nil => rfl
      | cons edge rest =>
          rw [List.nil_append, distinctSources_of_ne (fresh edge List.mem_cons_self)]
          rfl
  | cons edge rest inductionHypothesis =>
      have restApart : ∀ edge ∈ rest, ∀ other ∈ second, edge.source ≠ other.source :=
        fun edge member => apart edge (List.mem_cons_of_mem _ member)
      rw [List.cons_append, distinctSources, distinctSources]
      split
      · exact inductionHypothesis fresh restApart
      · rw [inductionHypothesis _ restApart, List.cons_append]
        intro other member same
        exact apart edge List.mem_cons_self other member (Option.some.inj same)

theorem distinctSources_none_append {first second : List StoredEdge}
    (apart : ∀ edge ∈ first, ∀ other ∈ second, edge.source ≠ other.source) :
    distinctSources none (first ++ second) =
      distinctSources none first ++ distinctSources none second := by
  apply distinctSources_append
  · intro edge _
    exact nofun
  · exact apart

/-- Edges of the source before have no further source. -/
theorem distinctSources_repeated {previous : Option EntityId} {edges : List StoredEdge}
    (repeated : ∀ edge ∈ edges, previous = some edge.source) (rest : List StoredEdge) :
    distinctSources previous (edges ++ rest) = distinctSources previous rest := by
  induction edges with
  | nil => rfl
  | cons edge others inductionHypothesis =>
      rw [List.cons_append, distinctSources, if_pos (repeated edge List.mem_cons_self)]
      exact inductionHypothesis fun other member =>
        repeated other (List.mem_cons_of_mem edge member)

/-- The last of the distinct sources is the source of the last edge. -/
theorem getLast?_distinctSources (edges : List StoredEdge) (previous : Option EntityId) :
    (previous.toList ++ distinctSources previous edges).getLast? =
      (edges.getLast?.map StoredEdge.source).or previous := by
  induction edges generalizing previous with
  | nil => cases previous <;> rfl
  | cons edge rest inductionHypothesis =>
      have last : ((edge :: rest).getLast?.map StoredEdge.source).or previous =
          (rest.getLast?.map StoredEdge.source).or (some edge.source) := by
        rw [List.getLast?_cons]
        cases rest.getLast? <;> rfl
      rw [last, distinctSources]
      split
      · rename_i repeated
        rw [inductionHypothesis, repeated]
      · rw [← inductionHypothesis, List.getLast?_append]
        simp [List.getLast?_cons]

/-! ### Which moves keep in step -/

/--
What earlier moves leave behind: the source that was read last, and whether the walk stands where it
does by stepping back.
-/
structure Trail where
  read : Option EntityId
  back : Bool
deriving DecidableEq

/--
Whether a walk of edges makes a move as a walk of its sources does.  The source ahead must not be
the one that was read last.  A source that was reached by stepping back is only left backwards again
if it has a single edge.
-/
def Trail.admits (trail : Trail) (edges : List StoredEdge) (set : IdSet) (listed : SetWalk) :
    Move → Bool
  | .hasNext | .next =>
      listed.probed ||
        (set.get? (SetWalk.ahead set listed.position)).all fun id => trail.read != some id
  | .last =>
      !trail.back ||
        (listed.current set).all fun id => (edges.map StoredEdge.source).count id == 1

def Trail.behind (trail : Trail) (listed : SetWalk) : Move → Trail
  | .hasNext => ⟨trail.read, false⟩
  | .next =>
      match listed.next.1 with
      | .ok found => ⟨found.or trail.read, false⟩
      | .error _ => ⟨trail.read, false⟩
  | .last => ⟨trail.read, true⟩

/-- Whether a walk of edges makes all moves as a walk of its sources does. -/
def keepsInStep (edges : List StoredEdge) (set : IdSet) : List Move → Trail → SetWalk → Bool
  | [], _, _ => true
  | move :: rest, trail, listed =>
      trail.admits edges set listed move
        && keepsInStep edges set rest (trail.behind listed move) (setReader.move listed move).2

/-! ### Seeking -/

/-- Seeking passes the edges of the source read last and stops on the first edge of another one. -/
theorem seek_of_stands {links : LinkWalk} {behind ahead : List StoredEdge}
    (stands : links.Stands (behind ++ ahead) behind.length) (previous : Option EntityId) :
    (distinctSources previous ahead = [] ∧
        ∃ after, seek ⟨links, previous, none⟩ = (.ok (), ⟨after, previous, none⟩)) ∨
      ∃ repeated edge rest after, ahead = repeated ++ edge :: rest ∧
        (∀ other ∈ repeated, previous = some other.source) ∧ previous ≠ some edge.source ∧
        seek ⟨links, previous, none⟩ = (.ok (), ⟨after, previous, some edge.source⟩) ∧
        after.Stands (behind ++ ahead) ((behind ++ repeated).length + 1) := by
  induction ahead generalizing links behind with
  | nil =>
      obtain ⟨after, taken⟩ := LinkWalk.nextEdge_of_le stands (by simp)
      exact .inl ⟨rfl, after, by rw [seek, taken]⟩
  | cons edge rest inductionHypothesis =>
      obtain ⟨after, taken, standsAfter⟩ := LinkWalk.nextEdge_of_lt stands (by simp)
      simp only [List.getElem_append_right (Nat.le_refl _), Nat.sub_self, List.getElem_cons_zero]
        at taken
      by_cases repeated : previous = some edge.source
      · have sought : seek ⟨links, previous, none⟩ = seek ⟨after, previous, none⟩ := by
          rw [seek, taken]
          simp [repeated]
        have shifted : behind ++ edge :: rest = (behind ++ [edge]) ++ rest := by simp
        rw [shifted] at standsAfter ⊢
        have counted : behind.length + 1 = (behind ++ [edge]).length := by simp
        rw [counted] at standsAfter
        rcases inductionHypothesis standsAfter with ⟨nothing, final, reached⟩ |
          ⟨others, found, further, final, split, same, fresh, reached, standsFinal⟩
        · refine .inl ⟨?_, final, sought.trans reached⟩
          rw [distinctSources, if_pos repeated, nothing]
        · refine .inr ⟨edge :: others, found, further, final, ?_, ?_, fresh,
            sought.trans reached, ?_⟩
          · rw [split, List.cons_append]
          · intro other member
            rcases List.mem_cons.1 member with rfl | member
            · exact repeated
            · exact same other member
          · simpa using standsFinal
      · have sought : seek ⟨links, previous, none⟩ =
            (.ok (), ⟨after, previous, some edge.source⟩) := by
          rw [seek, taken]
          simp [repeated]
        exact .inr ⟨[], edge, rest, after, rfl, List.forall_mem_nil _, repeated, sought,
          by simpa using standsAfter⟩

/-! ### Walks in step -/

section InStep

variable {edges behind ahead rest : List StoredEdge} {edge : StoredEdge} {set : IdSet}
  {walk : SourceWalk} {listed : SetWalk} {trail : Trail} {asked : Bool}

/-- A set that lists the sources of edges that are in order. -/
structure Listing (edges : List StoredEdge) (set : IdSet) : Prop where
  ordered : edges.Pairwise fun first second => ¬ second.source < first.source
  ids : set.ids = distinctSources none edges

/-- Both walks stand on a source, the walk of edges on its first edge, perhaps only by asking. -/
structure Met (edges : List StoredEdge) (set : IdSet) (walk : SourceWalk) (listed : SetWalk)
    (asked : Bool) (behind : List StoredEdge) (edge : StoredEdge) (rest : List StoredEdge) :
    Prop where
  split : edges = behind ++ edge :: rest
  first : ∀ other ∈ behind, other.source ≠ edge.source
  links : walk.links.Stands edges (behind.length + 1)
  lookahead : walk.lookahead = if asked then some edge.source else none
  read : asked = false → walk.previous = some edge.source
  listed : listed = SetWalk.standing set ((distinctSources none behind).length + 1) asked

/-- Both walks have passed all edges of some sources and none of the others. -/
structure Between (edges : List StoredEdge) (set : IdSet) (walk : SourceWalk) (listed : SetWalk)
    (behind ahead : List StoredEdge) : Prop where
  split : edges = behind ++ ahead
  apart : ∀ first ∈ behind, ∀ second ∈ ahead, first.source ≠ second.source
  links : walk.links.Stands edges behind.length
  unasked : walk.lookahead = none
  listed : listed = SetWalk.standing set (distinctSources none behind).length false

/-- A walk that is asked or read next seeks the sources that lie ahead of the walk of the set. -/
structure Facing (edges : List StoredEdge) (set : IdSet) (walk : SourceWalk) (listed : SetWalk)
    (behind ahead : List StoredEdge) (passed : List EntityId) : Prop where
  split : edges = behind ++ ahead
  links : walk.links.Stands edges behind.length
  unasked : walk.lookahead = none
  ids : set.ids = passed ++ distinctSources walk.previous ahead
  listed : listed = SetWalk.standing set passed.length false
  meets : ∀ repeated edge rest, ahead = repeated ++ edge :: rest →
    (∀ other ∈ repeated, walk.previous = some other.source) → walk.previous ≠ some edge.source →
      (∀ other ∈ behind ++ repeated, other.source ≠ edge.source) ∧
        distinctSources none (behind ++ repeated) = passed

/-- Where sources do not descend, one that is new on an edge is new on all edges behind it. -/
theorem Listing.apart (listing : Listing edges set) (split : edges = behind ++ edge :: rest)
    (first : ∀ other ∈ behind, other.source ≠ edge.source) :
    ∀ other ∈ behind, ∀ second ∈ edge :: rest, other.source ≠ second.source := by
  have ordered := listing.ordered
  rw [split] at ordered
  obtain ⟨_, laterOrdered, across⟩ := List.pairwise_append.1 ordered
  intro other earlier second later same
  rcases List.mem_cons.1 later with rfl | later
  · exact first other earlier same
  · have notAbove := across other earlier edge List.mem_cons_self
    have notBelow := (List.pairwise_cons.1 laterOrdered).1 second later
    rw [← same] at notBelow
    exact first other earlier (EntityId.eq_of_not_lt notBelow notAbove)

/-- The walk of the set has the source of an edge ahead once it has passed the sources before. -/
theorem Listing.source_ahead (listing : Listing edges set)
    (split : edges = behind ++ edge :: rest)
    (apart : ∀ first ∈ behind, ∀ second ∈ edge :: rest, first.source ≠ second.source) :
    set.ids[(distinctSources none behind).length]? = some edge.source := by
  have fresh : none ≠ some edge.source := nofun
  rw [listing.ids, split, distinctSources_none_append apart, distinctSources_of_ne fresh]
  simp

theorem Met.facing (met : Met edges set walk listed false behind edge rest)
    (listing : Listing edges set) :
    Facing edges set walk listed (behind ++ [edge]) rest
      (distinctSources none behind ++ [edge.source]) := by
  have split := met.split
  have read := met.read rfl
  have apart := listing.apart split met.first
  refine ⟨by simp [split], by simpa using met.links, met.lookahead, ?_, by simpa using met.listed,
    ?_⟩
  · rw [listing.ids, split, distinctSources_none_append apart, List.append_assoc, read]
    rfl
  · rintro repeated found further rfl same fresh
    rw [read] at same fresh
    constructor
    · intro other passed
      rcases List.mem_append.1 passed with passed | passed
      · rcases List.mem_append.1 passed with earlier | here
        · exact apart other earlier found (by simp)
        · rw [List.mem_singleton.1 here]
          exact fun sameSource => fresh (congrArg some sameSource)
      · rw [same other passed] at fresh
        exact fun sameSource => fresh (congrArg some sameSource)
    · have alone := distinctSources_repeated same []
      rw [List.append_nil] at alone
      rw [List.append_assoc, distinctSources_none_append]
      · show distinctSources none behind ++
          edge.source :: distinctSources (some edge.source) repeated = _
        rw [alone]
        rfl
      · intro first earlier second later
        refine apart first earlier second ?_
        rcases List.mem_cons.1 later with rfl | later
        · exact List.mem_cons_self
        · exact List.mem_cons_of_mem edge (List.mem_append_left _ later)

/-- Between sources, no edge is passed over unless the source ahead was the one read last. -/
theorem Between.facing (between : Between edges set walk listed behind ahead)
    (listing : Listing edges set)
    (fresh : ∀ edge rest, ahead = edge :: rest → walk.previous ≠ some edge.source) :
    Facing edges set walk listed behind ahead (distinctSources none behind) := by
  refine ⟨between.split, between.links, between.unasked, ?_, between.listed, ?_⟩
  · rw [listing.ids, between.split, distinctSources_none_append between.apart]
    cases ahead with
    | nil => rfl
    | cons edge rest =>
        rw [distinctSources_of_ne (fresh edge rest rfl)]
        rfl
  · rintro repeated edge rest split same _
    cases repeated with
    | cons other others =>
        exact absurd (same other List.mem_cons_self) (fresh other _ split)
    | nil =>
        rw [List.append_nil]
        refine ⟨fun other earlier => between.apart other earlier edge ?_, rfl⟩
        rw [split]
        exact List.mem_cons_self

/-- Seeking finds the source that lies ahead of the walk of the set, or neither finds one. -/
theorem Facing.fill {passed : List EntityId}
    (facing : Facing edges set walk listed behind ahead passed) :
    (passed.length = set.size ∧
        ∃ after, walk.fill = (.ok (), ⟨after, walk.previous, none⟩)) ∨
      ∃ edge after repeated rest,
        walk.fill = (.ok (), ⟨after, walk.previous, some edge.source⟩) ∧
        edges = (behind ++ repeated) ++ edge :: rest ∧
        (∀ other ∈ behind ++ repeated, other.source ≠ edge.source) ∧
        after.Stands edges ((behind ++ repeated).length + 1) ∧
        distinctSources none (behind ++ repeated) = passed ∧
        set.ids[passed.length]? = some edge.source := by
  obtain ⟨links, previous, lookahead⟩ := walk
  obtain ⟨rfl, stands, rfl, ids, _, meets⟩ := facing
  rcases seek_of_stands stands previous with ⟨nothing, after, reached⟩ |
    ⟨repeated, edge, rest, after, rfl, same, fresh, reached, standsAfter⟩
  · refine .inl ⟨?_, after, reached⟩
    rw [IdSet.size, ids, nothing, List.append_nil]
  · obtain ⟨first, read⟩ := meets repeated edge rest rfl same fresh
    refine .inr ⟨edge, after, repeated, rest, reached, by simp, first, standsAfter, read, ?_⟩
    rw [ids, distinctSources_repeated same, distinctSources_of_ne fresh]
    simp

/-- Reading what was found ahead does not move either walk. -/
theorem Met.taken (met : Met edges set walk listed true behind edge rest) :
    Met edges set { walk with previous := some edge.source, lookahead := none }
      (SetWalk.standing set ((distinctSources none behind).length + 1) false) false behind edge
      rest :=
  ⟨met.split, met.first, met.links, rfl, fun _ => rfl, rfl⟩

/-- Both walks are where moves in step leave them. -/
structure InStep (edges : List StoredEdge) (set : IdSet) (trail : Trail) (walk : SourceWalk)
    (listed : SetWalk) : Prop where
  read : walk.previous = trail.read
  place : (∃ asked behind edge rest, Met edges set walk listed asked behind edge rest) ∨
    ∃ behind ahead, (trail.back = true ∨ behind = []) ∧
      Between edges set walk listed behind ahead

/-- Between sources, an admitted move does not seek the source that was read last again. -/
theorem Between.fresh (between : Between edges set walk listed behind ahead)
    (listing : Listing edges set) (read : walk.previous = trail.read)
    (admitted : trail.admits edges set listed .next = true) :
    ∀ edge rest, ahead = edge :: rest → walk.previous ≠ some edge.source := by
  rintro edge rest rfl
  have member := listing.source_ahead between.split between.apart
  have inside : (distinctSources none behind).length < set.size :=
    (List.getElem?_eq_some_iff.1 member).1
  have present : set.get? (SetWalk.ahead set listed.position) = some edge.source := by
    rw [between.listed, SetWalk.ahead_standing, Nat.min_eq_left (Nat.le_of_lt inside)]
    exact member
  have unprobed : listed.probed = false := by
    rw [between.listed]
    rfl
  simpa [Trail.admits, present, unprobed, read] using admitted

/-- Asked ahead in step, both walks find the same source, or both come to the end. -/
theorem InStep.ask (inStep : InStep edges set trail walk listed)
    (listing : Listing edges set)
    (admitted : trail.admits edges set listed .next = true) :
    (∃ filled found behind edge rest, walk.fill = (.ok (), filled) ∧
        filled.previous = walk.previous ∧ Met edges set filled found true behind edge rest ∧
        listed.hasNext = (.ok true, found) ∧
        listed.next = (.ok (some edge.source),
          SetWalk.standing set ((distinctSources none behind).length + 1) false)) ∨
      (∃ filled, walk.fill = (.ok (), filled) ∧ filled.lookahead = none) ∧
        (∃ found, listed.hasNext = (.ok false, found)) ∧
        ∃ found, listed.next = (.ok none, found) := by
  have asking : (∃ behind edge rest, Met edges set walk listed true behind edge rest) ∨
      ∃ behind ahead passed, Facing edges set walk listed behind ahead passed := by
    rcases inStep.place with ⟨asked, behind, edge, rest, met⟩ | ⟨behind, ahead, _, between⟩
    · cases asked with
      | true => exact .inl ⟨behind, edge, rest, met⟩
      | false => exact .inr ⟨_, _, _, met.facing listing⟩
    · exact .inr ⟨_, _, _, between.facing listing (between.fresh listing inStep.read admitted)⟩
  rcases asking with ⟨behind, edge, rest, met⟩ | ⟨behind, ahead, passed, facing⟩
  · have apart := listing.apart met.split met.first
    have member := listing.source_ahead met.split apart
    have filled : walk.fill = (.ok (), walk) := by simp [fill, met.lookahead]
    refine .inl ⟨walk, listed, behind, edge, rest, filled, rfl, met, ?_, ?_⟩
    · rw [met.listed, SetWalk.hasNext_probed, member]
      rfl
    · rw [met.listed, SetWalk.next_probed, member]
  · rcases facing.fill with ⟨all, after, filled⟩ |
      ⟨edge, after, repeated, rest, filled, split, first, stands, read, member⟩
    · have absent : set.ids[set.size]? = none := List.getElem?_eq_none (Nat.le_refl _)
      refine .inr ⟨⟨_, filled, rfl⟩, ⟨SetWalk.standing set (set.size + 1) true, ?_⟩,
        ⟨SetWalk.standing set (set.size + 1) false, ?_⟩⟩
      · rw [facing.listed, SetWalk.hasNext_standing, all, Nat.min_self, absent]
        rfl
      · rw [facing.listed, SetWalk.next_standing, all, Nat.min_self, absent]
    · have inside : passed.length ≤ set.size :=
        Nat.le_of_lt (List.getElem?_eq_some_iff.1 member).1
      have met : Met edges set ⟨after, walk.previous, some edge.source⟩
          (SetWalk.standing set (passed.length + 1) true) true (behind ++ repeated) edge rest :=
        ⟨split, first, stands, rfl, fun unasked => absurd unasked.symm Bool.false_ne_true,
          by rw [read]⟩
      refine .inl ⟨_, _, _, edge, rest, filled, rfl, met, ?_, ?_⟩
      · rw [facing.listed, SetWalk.hasNext_standing, Nat.min_eq_left inside, member]
        rfl
      · rw [facing.listed, SetWalk.next_standing, Nat.min_eq_left inside, member, read]

/-- A move forwards in step is replied to alike, and keeps in step unless nothing is left. -/
theorem InStep.forward (inStep : InStep edges set trail walk listed)
    (listing : Listing edges set) {move : Move} (forwards : move ≠ .last)
    (admitted : trail.admits edges set listed move = true) :
    (sourceReader.move walk move).1 = (setReader.move listed move).1 ∧
      (move.reportsEnd (setReader.move listed move).1 = true ∨
        InStep edges set (trail.behind listed move) (sourceReader.move walk move).2
          (setReader.move listed move).2) := by
  have admittedNext : trail.admits edges set listed .next = true := by
    cases move with
    | last => exact absurd rfl forwards
    | hasNext => exact admitted
    | next => exact admitted
  rcases inStep.ask listing admittedNext with
    ⟨filled, found, behind, edge, rest, reached, same, met, listedAsked, listedRead⟩ |
    ⟨⟨filled, reached, nothing⟩, ⟨found, listedAsked⟩, ⟨taken, listedRead⟩⟩
  · cases move with
    | last => exact absurd rfl forwards
    | hasNext =>
        have step : sourceReader.hasNext walk = (.ok true, filled) := by
          show walk.hasNext = _
          simp [hasNext, reached, met.lookahead]
        have listedStep : setReader.hasNext listed = (.ok true, found) := listedAsked
        rw [Reader.move, Reader.move, step, listedStep]
        exact ⟨rfl, .inr ⟨same.trans inStep.read, .inl ⟨true, behind, edge, rest, met⟩⟩⟩
    | next =>
        have step : sourceReader.next walk = (.ok (some edge.source),
            { filled with previous := some edge.source, lookahead := none }) := by
          show walk.next = _
          simp [SourceWalk.next, reached, met.lookahead]
        have listedStep : setReader.next listed = _ := listedRead
        rw [Reader.move, Reader.move, step, listedStep, Trail.behind, listedRead]
        exact ⟨rfl, .inr ⟨rfl, .inl ⟨false, behind, edge, rest, met.taken⟩⟩⟩
  · cases move with
    | last => exact absurd rfl forwards
    | hasNext =>
        have step : sourceReader.hasNext walk = (.ok false, filled) := by
          show walk.hasNext = _
          simp [hasNext, reached, nothing]
        have listedStep : setReader.hasNext listed = (.ok false, found) := listedAsked
        rw [Reader.move, Reader.move, step, listedStep]
        exact ⟨rfl, .inl rfl⟩
    | next =>
        have step : (sourceReader.next walk).1 = .ok none := by
          show walk.next.1 = _
          simp [SourceWalk.next, reached, nothing]
        have listedStep : (setReader.next listed).1 = .ok none := congrArg Prod.fst listedRead
        simp [Reader.move, step, listedStep, Except.map, Move.reportsEnd]

/-- A source with a single edge is new on that edge. -/
theorem first_of_count (split : edges = behind ++ edge :: rest)
    (single : (edges.map StoredEdge.source).count edge.source = 1) :
    ∀ other ∈ behind, other.source ≠ edge.source := by
  intro other earlier same
  have counted : 0 < (behind.map StoredEdge.source).count edge.source :=
    List.count_pos_iff.2 (List.mem_map.2 ⟨other, earlier, same⟩)
  rw [split, List.map_append, List.count_append, List.map_cons, List.count_cons_self] at single
  omega

/-- Between sources, the walk of the set stands on the source of the last edge that was passed. -/
theorem Between.current (between : Between edges set walk listed behind ahead)
    (listing : Listing edges set) :
    listed.current set = behind.getLast?.map StoredEdge.source := by
  rw [between.listed, SetWalk.current_standing, listing.ids, between.split,
    distinctSources_none_append between.apart, standingOn_append_length]
  exact (getLast?_distinctSources behind none).trans Option.or_none

/-- Stepping back in step crosses all edges of one source, or wraps around to the last source. -/
theorem InStep.stepsBack (inStep : InStep edges set trail walk listed)
    (listing : Listing edges set)
    (admitted : trail.admits edges set listed .last = true) :
    ∃ behind ahead passed standing probed, edges = behind ++ ahead ∧
      (∀ first ∈ behind, ∀ second ∈ ahead, first.source ≠ second.source) ∧
      walk.links.Stands edges passed ∧ steppedBack edges.length passed = behind.length ∧
      listed = SetWalk.standing set standing probed ∧
      steppedBack set.size standing = (distinctSources none behind).length := by
  rcases inStep.place with ⟨asked, behind, edge, rest, met⟩ | ⟨behind, ahead, stepped, between⟩
  · have apart := listing.apart met.split met.first
    refine ⟨behind, edge :: rest, _, _, asked, met.split, apart, met.links, ?_, met.listed, ?_⟩
    · rw [steppedBack, met.split]
      exact Nat.min_eq_left (by simp)
    · rw [steppedBack, IdSet.size, listing.ids, met.split, distinctSources_none_append apart]
      exact Nat.min_eq_left (by simp)
  · rcases List.eq_nil_or_concat behind with rfl | ⟨others, edge, rfl⟩
    · refine ⟨edges, [], _, _, false, (List.append_nil edges).symm,
        fun _ _ => List.forall_mem_nil _, between.links, rfl, between.listed, ?_⟩
      rw [← listing.ids]
      rfl
    · have back : trail.back = true := stepped.resolve_right (by simp)
      have single : (edges.map StoredEdge.source).count edge.source = 1 := by
        simpa [Trail.admits, back, between.current listing] using admitted
      have split : edges = others ++ edge :: ahead := by simpa using between.split
      have apart := listing.apart split (first_of_count split single)
      refine ⟨others, edge :: ahead, _, _, false, split, apart, between.links, ?_, between.listed,
        ?_⟩
      · rw [List.length_concat, steppedBack, split]
        exact Nat.min_eq_left (by simp)
      · have alone : ∀ first ∈ others, ∀ second ∈ [edge], first.source ≠ second.source := by
          intro first earlier second here
          rw [List.mem_singleton.1 here]
          exact apart first earlier edge List.mem_cons_self
        rw [List.concat_eq_append, distinctSources_none_append alone]
        show steppedBack set.size ((distinctSources none others ++ [edge.source]).length) = _
        rw [List.length_append, IdSet.size, listing.ids, split, distinctSources_none_append apart]
        exact Nat.min_eq_left (by simp)

/-- Stepping back in step is replied to alike and keeps in step. -/
theorem InStep.back (inStep : InStep edges set trail walk listed)
    (listing : Listing edges set)
    (admitted : trail.admits edges set listed .last = true) :
    (sourceReader.move walk .last).1 = (setReader.move listed .last).1 ∧
      InStep edges set (trail.behind listed .last) (sourceReader.move walk .last).2
        (setReader.move listed .last).2 := by
  obtain ⟨behind, ahead, passed, standing, probed, split, apart, stands, stepped, rfl,
    listedStepped⟩ := inStep.stepsBack listing admitted
  obtain ⟨links, crossed, standsBack⟩ := LinkWalk.lastEdge_of_stands stands
  rw [stepped] at crossed standsBack
  have found : (standingOn edges behind.length).map StoredEdge.source =
      standingOn set.ids (distinctSources none behind).length := by
    rw [listing.ids, split, distinctSources_none_append apart, standingOn_append_length,
      standingOn_append_length]
    exact ((getLast?_distinctSources behind none).trans Option.or_none).symm
  have step : sourceReader.last walk =
      (.ok (standingOn set.ids (distinctSources none behind).length),
        { walk with links, lookahead := none }) := by
    show walk.last = _
    rw [last, crossed, found]
  have listedStep : setReader.last (SetWalk.standing set standing probed) =
      (.ok (standingOn set.ids (distinctSources none behind).length),
        SetWalk.standing set (distinctSources none behind).length false) := by
    rw [← listedStepped]
    exact SetWalk.last_standing set standing probed
  rw [Reader.move, Reader.move, step, listedStep]
  exact ⟨rfl, inStep.read, .inr ⟨behind, ahead, .inl rfl, split, apart, standsBack, rfl, rfl⟩⟩

/-- Moves in step are replied to alike, up to the first report that nothing is left. -/
theorem InStep.replies (inStep : InStep edges set trail walk listed)
    (listing : Listing edges set) {moves : List Move}
    (continues : setReader.continues moves.dropLast listed = true)
    (keeps : keepsInStep edges set moves trail listed = true) :
    sourceReader.replies moves walk = setReader.replies moves listed := by
  refine Reader.replies_eq_until_end sourceReader setReader
    (fun moves walk listed => ∃ trail, InStep edges set trail walk listed ∧
      keepsInStep edges set moves trail listed = true)
    ?_ ⟨trail, inStep, keeps⟩ continues
  rintro move rest walk listed ⟨trail, inStep, keeps⟩
  rw [keepsInStep, Bool.and_eq_true] at keeps
  obtain ⟨admitted, further⟩ := keeps
  by_cases backwards : move = .last
  · subst backwards
    obtain ⟨alike, behind⟩ := inStep.back listing admitted
    exact ⟨alike, .inr ⟨_, behind, further⟩⟩
  · obtain ⟨alike, behind⟩ := inStep.forward listing backwards admitted
    exact ⟨alike, behind.imp_right fun behind => ⟨_, behind, further⟩⟩

end InStep

/-- A store of numbered edges of one link, given their sources. -/
def storeOfSources (sources : List UInt64) : MemoryStore :=
  sources.zipIdx.foldl
    (fun store (source, target) => store.addEdge ⟨⟨1, source⟩, 1, ⟨2, target.toUInt64⟩⟩) .empty

/--
The distinct sources of a link are read back and forth alike from its index and from their set, up
to the first report that nothing is left, if the moves keep in step.
-/
theorem linkScan_replies_eq_setReader (store : MemoryStore) (typeId : TypeId) (linkId : LinkId)
    {moves : List Move}
    (continues :
      setReader.continues moves.dropLast (SetWalk.ofSet (store.sourcesOf typeId linkId)) = true)
    (keeps : keepsInStep (store.edgesOf typeId linkId) (store.sourcesOf typeId linkId) moves
      ⟨none, false⟩ (SetWalk.ofSet (store.sourcesOf typeId linkId)) = true) :
    sourceReader.replies moves
        (ofEntries typeId ((store.edgesOf typeId linkId).map MemoryStore.edgeEntry)) =
      setReader.replies moves (SetWalk.ofSet (store.sourcesOf typeId linkId)) := by
  have entries : (store.edgesOf typeId linkId).map MemoryStore.edgeEntry =
      ((store.edgesOf typeId linkId).map LinkWalk.recordOf).map .record := by
    rw [List.map_map]
    rfl
  have links : (LinkWalk.ofEntries typeId
      ((store.edgesOf typeId linkId).map MemoryStore.edgeEntry)).Stands
        (store.edgesOf typeId linkId) 0 := by
    refine ⟨fun edge member => (MemoryStore.mem_edgesOf.1 member).2.1, ?_⟩
    rw [LinkWalk.ofEntries, entries]
    exact Probe.stands_ofEntries _
  have start : InStep (store.edgesOf typeId linkId) (store.sourcesOf typeId linkId) ⟨none, false⟩
      (ofEntries typeId ((store.edgesOf typeId linkId).map MemoryStore.edgeEntry))
      (SetWalk.ofSet (store.sourcesOf typeId linkId)) :=
    ⟨rfl, .inr ⟨[], _, .inr rfl, rfl, nofun, links, rfl, rfl⟩⟩
  exact start.replies ⟨(store.edgesOf_ordered typeId linkId).sources, rfl⟩ continues keeps

theorem linkScan_replies_stepping_back :
    setReader.continues [.next, .next, .hasNext, .last, .next, .last, .last, .last]
        (SetWalk.ofSet ((storeOfSources [1, 2, 3, 3]).sourcesOf 1 1)) = true ∧
      keepsInStep ((storeOfSources [1, 2, 3, 3]).edgesOf 1 1)
        ((storeOfSources [1, 2, 3, 3]).sourcesOf 1 1)
        [.next, .next, .hasNext, .last, .next, .last, .last, .last, .last] ⟨none, false⟩
        (SetWalk.ofSet ((storeOfSources [1, 2, 3, 3]).sourcesOf 1 1)) = true ∧
      sourceReader.replies [.next, .next, .hasNext, .last, .next, .last, .last, .last, .last]
          (ofEntries 1 (((storeOfSources [1, 2, 3, 3]).edgesOf 1 1).map
            MemoryStore.edgeEntry)) =
        setReader.replies [.next, .next, .hasNext, .last, .next, .last, .last, .last, .last]
          (SetWalk.ofSet ((storeOfSources [1, 2, 3, 3]).sourcesOf 1 1)) := by
  refine ⟨by decide, by decide, linkScan_replies_eq_setReader _ 1 1 ?_ ?_⟩
  · decide
  · decide

/--
A source that was read and stepped over backwards is passed over by the walk of edges: of four
sources with one edge each, the third is read, and after a step back the fourth follows.
-/
theorem linkScan_replies_ne_setReader_stepping_back :
    ¬ ∀ (store : MemoryStore) (typeId : TypeId) (linkId : LinkId) (moves : List Move),
      sourceReader.continues moves.dropLast (ofEntries typeId
          ((store.edgesOf typeId linkId).map MemoryStore.edgeEntry)) = true →
        setReader.continues moves.dropLast (SetWalk.ofSet (store.sourcesOf typeId linkId)) =
          true →
          sourceReader.replies moves
              (ofEntries typeId ((store.edgesOf typeId linkId).map MemoryStore.edgeEntry)) =
            setReader.replies moves (SetWalk.ofSet (store.sourcesOf typeId linkId)) := by
  intro alike
  have sameReplies := alike (storeOfSources [1, 2, 3, 4]) 1 1 [.next, .next, .next, .last, .next]
    (by decide +kernel) (by decide)
  exact absurd (congrArg (List.map Except.toOption) sameReplies) (by decide +kernel)

end SourceWalk

end EntityQuery
