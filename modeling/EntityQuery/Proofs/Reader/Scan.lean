import EntityQuery.Proofs.Reader.Delivery
import EntityQuery.Store.Memory

/-!
# What the scans deliver

The elementary readers over the indexes of a store in memory, and over a set.  The state of a scan is
described by the records that lie ahead of its probe; one record is taken per step, so every result
is by induction on the records.

The distinct sources of an index, and its sources with a target in a set, are given as lists first.
Where the index is in order, both lists are strictly ascending.
-/

namespace EntityQuery

/-! ## Sets -/

namespace SetWalk

/-- A reader that was not asked delivers the members ahead of its position. -/
theorem delivers_ahead (set : IdSet) (position : Option Nat) {ids : List EntityId}
    (rest : set.ids.drop (ahead set position) = ids) :
    setReader.Delivers ⟨some set, position, false⟩ ids := by
  induction ids generalizing position with
  | nil =>
      have passed : set.size ≤ ahead set position := List.drop_eq_nil_iff.1 rest
      have step : next ⟨some set, position, false⟩ =
          (.ok none, ⟨some set, some (ahead set position), false⟩) := by
        have absent : set.get? (ahead set position) = none := List.getElem?_eq_none passed
        simp [next, stepped, current, absent]
      exact .ended step
  | cons id others inductionHypothesis =>
      have present : set.get? (ahead set position) = some id := by
        have head := congrArg List.head? rest
        rwa [List.head?_drop] at head
      have step : next ⟨some set, position, false⟩ =
          (.ok (some id), ⟨some set, some (ahead set position), false⟩) := by
        simp [next, stepped, current, present]
      refine .yielded step (inductionHypothesis _ ?_)
      have inRange : ahead set position < set.size := (List.getElem?_eq_some_iff.1 present).1
      rw [ahead, Nat.min_eq_left inRange, ← List.tail_drop, rest, List.tail_cons]

end SetWalk

theorem Traversal.delivers_ofSet (set : IdSet) : (ofSet set).Delivers set.ids :=
  SetWalk.delivers_ahead set none rfl

/-! ## Records ahead of a probe -/

/-- What moves forward will read, one entry after the other. -/
def Cursor.rest (cursor : Cursor) : List (Except QueryError Record) :=
  let ahead := match cursor.position with
    | .beforeFirst => cursor.entries
    | .onEntry index => cursor.entries.drop (index + 1)
    | .afterLast => []
  ahead.map Entry.read

/-- A move forward arrives at the first entry that lies ahead, if one does. -/
theorem Cursor.moveNext_cases (cursor : Cursor) :
    (∃ index, cursor.moveNext = cursor.arrive Entry.read index ∧
        cursor.rest = (cursor.entries.drop index).map Entry.read) ∨
      (cursor.moveNext.1 = .ok false ∧ cursor.rest = []) := by
  cases atPosition : cursor.position with
  | beforeFirst => exact .inl ⟨0, by rw [moveNext, atPosition], by rw [rest, atPosition]; rfl⟩
  | onEntry index =>
      exact .inl ⟨index + 1, by rw [moveNext, atPosition], by rw [rest, atPosition]⟩
  | afterLast =>
      exact .inr ⟨by rw [moveNext, atPosition]; rfl, by rw [rest, atPosition]; rfl⟩

theorem Cursor.moveNext_of_rest_nil {cursor : Cursor} (nothing : cursor.rest = []) :
    cursor.moveNext.1 = .ok false := by
  rcases cursor.moveNext_cases with ⟨index, moved, ahead⟩ | ⟨moved, _⟩
  · have exhausted : cursor.entries.drop index = [] :=
      List.map_eq_nil_iff.1 (ahead.symm.trans nothing)
    have absent : cursor.entries[index]? = none :=
      List.getElem?_eq_none (List.drop_eq_nil_iff.1 exhausted)
    rw [moved, arrive, absent]
  · exact moved

/-- A move forward reads the first entry that lies ahead, and passes it whatever it reads. -/
theorem Cursor.moveNext_of_rest_cons {cursor : Cursor} {reading : Except QueryError Record}
    {others : List (Except QueryError Record)} (something : cursor.rest = reading :: others) :
    ∃ after, cursor.moveNext = (reading.map fun _ => true, after) ∧ after.rest = others ∧
      ∀ record, reading = .ok record → after.current = record := by
  rcases cursor.moveNext_cases with ⟨index, moved, ahead⟩ | ⟨_, nothing⟩
  · rw [something] at ahead
    obtain ⟨entry, further, split, rfl, rfl⟩ := List.map_eq_cons_iff.1 ahead.symm
    have present : cursor.entries[index]? = some entry := by
      rw [← List.head?_drop, split, List.head?_cons]
    have behind : cursor.entries.drop (index + 1) = further := by
      rw [← List.tail_drop, split, List.tail_cons]
    rw [moved, arrive, present]
    refine ⟨_, rfl, congrArg (List.map Entry.read) behind, ?_⟩
    intro record reads
    cases entry with
    | record stored | oneWay stored _ =>
        cases reads
        simp [current, present]
    | fault error => cases reads
  · rw [something] at nothing
    cases nothing

/-- A probe that was not asked, with the given readings ahead. -/
structure Probe.Faces (probe : Probe) (readings : List (Except QueryError Record)) : Prop where
  held : probe.held = true
  unasked : probe.answer = none
  unexhausted : probe.exhausted = false
  rest : probe.cursor.rest = readings

namespace Probe

theorem faces_ofEntries (entries : List Entry) :
    (ofEntries entries).Faces (entries.map Entry.read) :=
  ⟨rfl, rfl, rfl, rfl⟩

theorem advance_of_faces_nil {probe : Probe} (faces : probe.Faces []) :
    ∃ after, probe.advance = (.ok none, after) := by
  have moved := Cursor.moveNext_of_rest_nil faces.rest
  have asked : probe.hasNext.1 = .ok false := by
    rw [hasNext, faces.unexhausted, faces.unasked, faces.held]
    rcases step : probe.cursor.moveNext with ⟨answer, cursor⟩
    rw [step] at moved
    cases moved
    rfl
  rcases step : probe.hasNext with ⟨answer, after⟩
  rw [step] at asked
  cases asked
  exact ⟨after, by rw [advance, step]⟩

theorem advance_of_faces_cons {probe : Probe} {record : Record}
    {others : List (Except QueryError Record)} (faces : probe.Faces (.ok record :: others)) :
    ∃ after, probe.advance = (.ok (some record), after) ∧ after.Faces others := by
  obtain ⟨cursor, moved, rest, current⟩ := Cursor.moveNext_of_rest_cons faces.rest
  have asked : probe.hasNext =
      (.ok true, { probe with cursor, answer := some true, exhausted := false }) := by
    rw [hasNext, faces.unexhausted, faces.unasked, faces.held, moved]
    rfl
  refine ⟨{ probe with cursor, answer := none, exhausted := false }, ?_, ?_⟩
  · rw [advance, asked]
    simp [faces.held, current record rfl]
  · exact ⟨faces.held, rfl, rfl, rest⟩

theorem advance_of_faces_error {probe : Probe} {error : QueryError}
    {others : List (Except QueryError Record)} (faces : probe.Faces (.error error :: others)) :
    probe.advance.1 = .error error := by
  obtain ⟨cursor, moved, _⟩ := Cursor.moveNext_of_rest_cons faces.rest
  have asked : probe.hasNext = (.error error, { probe with cursor }) := by
    rw [hasNext, faces.unexhausted, faces.unasked, faces.held, moved]
    rfl
  rw [advance, asked]

end Probe

/-! ## The entities of a type -/

/-- A walk of an entity index delivers the identities ahead of it. -/
theorem EntityWalk.delivers_of_faces {typeId : TypeId} {ids : List EntityId}
    (ofType : ∀ id ∈ ids, id.typeId = typeId) {probe : Probe}
    (faces : probe.Faces ((ids.map MemoryStore.entityEntry).map Entry.read)) :
    entityReader.Delivers ⟨typeId, probe⟩ ids := by
  induction ids generalizing probe with
  | nil =>
      obtain ⟨after, taken⟩ := Probe.advance_of_faces_nil faces
      have step : next ⟨typeId, probe⟩ = (.ok none, ⟨typeId, after⟩) := by
        rw [next, taken]
        rfl
      exact .ended step
  | cons id others inductionHypothesis =>
      obtain ⟨after, taken, facesOthers⟩ := Probe.advance_of_faces_cons faces
      have step : next ⟨typeId, probe⟩ = (.ok (some id), ⟨typeId, after⟩) := by
        have decoded := Layout.decodeEntityKey_encodeLocalId id
        rw [ofType id List.mem_cons_self] at decoded
        simp [next, taken, decode, decoded, Except.map]
      refine .yielded step (inductionHypothesis ?_ facesOthers)
      intro other member
      exact ofType other (List.mem_cons_of_mem id member)

theorem Traversal.delivers_ofEntities (store : MemoryStore) (typeId : TypeId) :
    (ofEntities typeId ((store.entitiesOf typeId).map MemoryStore.entityEntry)).Delivers
      (store.entitiesOf typeId) := by
  refine EntityWalk.delivers_of_faces ?_ (Probe.faces_ofEntries _)
  intro id member
  have ofType := (List.mem_filter.1 member).2
  simpa using ofType

/-! ## The edges of a link -/

/-- A walk of the index of a link of a type, with the given edges ahead. -/
structure LinkWalk.Faces (walk : LinkWalk) (edges : List StoredEdge) : Prop where
  ofType : ∀ edge ∈ edges, edge.source.typeId = walk.typeId
  probe : walk.probe.Faces ((edges.map MemoryStore.edgeEntry).map Entry.read)

namespace LinkWalk

theorem faces_ofEntries (store : MemoryStore) (typeId : TypeId) (linkId : LinkId) :
    (ofEntries typeId ((store.edgesOf typeId linkId).map MemoryStore.edgeEntry)).Faces
      (store.edgesOf typeId linkId) where
  ofType edge member := by
    have selected := (List.mem_filter.1 member).2
    simp only [Bool.and_eq_true, decide_eq_true_eq] at selected
    exact selected.1
  probe := Probe.faces_ofEntries _

theorem nextEdge_of_faces_nil {walk : LinkWalk} (faces : walk.Faces []) :
    ∃ after, walk.nextEdge = (.ok none, after) := by
  obtain ⟨after, taken⟩ := Probe.advance_of_faces_nil faces.probe
  exact ⟨_, by rw [nextEdge, taken]⟩

theorem nextEdge_of_faces_cons {walk : LinkWalk} {edge : StoredEdge} {others : List StoredEdge}
    (faces : walk.Faces (edge :: others)) :
    ∃ after, walk.nextEdge = (.ok (some ⟨edge.source, edge.target⟩), after) ∧
      after.Faces others := by
  obtain ⟨after, taken, facesOthers⟩ := Probe.advance_of_faces_cons faces.probe
  have source := Layout.decodeEntityKey_encodeLocalId edge.source
  rw [faces.ofType edge List.mem_cons_self] at source
  refine ⟨{ walk with probe := after, target := some edge.target }, ?_, ?_, facesOthers⟩
  · simp [nextEdge, taken, takeEdge, decodeEdge, source, Layout.decodeLinkTarget_encodeLinkTarget,
      Except.map]
  · intro other member
    exact faces.ofType other (List.mem_cons_of_mem edge member)

end LinkWalk

/-- The sources of the edges of an ordered list do not descend. -/
theorem StoredEdge.Ordered.sources {edges : List StoredEdge} (ordered : Ordered edges) :
    edges.Pairwise fun first second => ¬ second.source < first.source := by
  refine List.Pairwise.imp ?_ ordered
  intro first second inOrder less
  rw [before_iff.2 (.inl less)] at inOrder
  cases inOrder

/-! ## The distinct sources of a link -/

namespace SourceWalk

/-- The sources of edges that differ from the source before. -/
def distinctSources (previous : Option EntityId) : List StoredEdge → List EntityId
  | [] => []
  | edge :: rest =>
      if previous = some edge.source then distinctSources previous rest
      else edge.source :: distinctSources (some edge.source) rest

/-- A walk delivers the distinct sources of the edges ahead of it. -/
theorem delivers_of_faces {edges : List StoredEdge} {links : LinkWalk}
    (faces : links.Faces edges) (previous : Option EntityId) :
    sourceReader.Delivers ⟨links, previous, none⟩ (distinctSources previous edges) := by
  induction edges generalizing links previous with
  | nil =>
      obtain ⟨after, taken⟩ := LinkWalk.nextEdge_of_faces_nil faces
      have sought : seek ⟨links, previous, none⟩ = (.ok (), ⟨after, previous, none⟩) := by
        rw [seek, taken]
      have step : next ⟨links, previous, none⟩ = (.ok none, ⟨after, previous, none⟩) := by
        simp [next, fill, sought]
      exact .ended step
  | cons edge others inductionHypothesis =>
      obtain ⟨after, taken, facesOthers⟩ := LinkWalk.nextEdge_of_faces_cons faces
      rw [distinctSources]
      split
      · rename_i repeated
        -- The edge is passed over within one reading, which then reads like the state behind it.
        refine (inductionHypothesis facesOthers previous).congr ?_
        have sought : seek ⟨links, previous, none⟩ = seek ⟨after, previous, none⟩ := by
          rw [seek, taken]
          simp [repeated]
        show next _ = next _
        simp [next, fill, sought]
      · rename_i fresh
        have sought : seek ⟨links, previous, none⟩ =
            (.ok (), ⟨after, previous, some edge.source⟩) := by
          rw [seek, taken]
          simp [fresh]
        have step : next ⟨links, previous, none⟩ =
            (.ok (some edge.source), ⟨after, some edge.source, none⟩) := by
          simp [next, fill, sought]
        exact .yielded step (inductionHypothesis facesOthers _)

theorem mem_of_mem_distinctSources {previous : Option EntityId} {edges : List StoredEdge}
    {id : EntityId} (member : id ∈ distinctSources previous edges) :
    ∃ edge ∈ edges, edge.source = id := by
  induction edges generalizing previous with
  | nil => cases member
  | cons edge others inductionHypothesis =>
      rw [distinctSources] at member
      split at member
      · obtain ⟨other, present, source⟩ := inductionHypothesis member
        exact ⟨other, List.mem_cons_of_mem edge present, source⟩
      · rcases List.mem_cons.1 member with rfl | member
        · exact ⟨edge, List.mem_cons_self, rfl⟩
        · obtain ⟨other, present, source⟩ := inductionHypothesis member
          exact ⟨other, List.mem_cons_of_mem edge present, source⟩

/-- Only the source before can be left out. -/
theorem mem_distinctSources (previous : Option EntityId) {edges : List StoredEdge}
    {edge : StoredEdge} (member : edge ∈ edges) :
    previous = some edge.source ∨ edge.source ∈ distinctSources previous edges := by
  induction edges generalizing previous with
  | nil => cases member
  | cons head others inductionHypothesis =>
      rw [distinctSources]
      rcases List.mem_cons.1 member with rfl | member
      · split
        · rename_i repeated
          exact .inl repeated
        · exact .inr List.mem_cons_self
      · split
        · exact inductionHypothesis previous member
        · rcases inductionHypothesis (some head.source) member with same | later
          · rw [Option.some.inj same]
            exact .inr List.mem_cons_self
          · exact .inr (List.mem_cons_of_mem _ later)

/-- Where the sources do not descend, the distinct ones ascend from the one before. -/
theorem ascending_distinctSources {edges : List StoredEdge}
    (ordered : edges.Pairwise fun first second => ¬ second.source < first.source)
    (previous : Option EntityId)
    (behind : ∀ last ∈ previous, ∀ edge ∈ edges, ¬ edge.source < last) :
    (previous.toList ++ distinctSources previous edges).Pairwise (· < ·) := by
  induction edges generalizing previous with
  | nil => cases previous <;> simp [distinctSources]
  | cons edge others inductionHypothesis =>
      obtain ⟨headFirst, othersOrdered⟩ := List.pairwise_cons.1 ordered
      rw [distinctSources]
      split
      · refine inductionHypothesis othersOrdered previous ?_
        intro last present other member
        exact behind last present other (List.mem_cons_of_mem edge member)
      · rename_i fresh
        have ascending : (edge.source :: distinctSources (some edge.source) others).Pairwise
            (· < ·) := by
          refine inductionHypothesis othersOrdered (some edge.source) ?_
          rintro last ⟨⟩ other member
          exact headFirst other member
        cases previous with
        | none => exact ascending
        | some last =>
            have above : last < edge.source := by
              apply EntityId.lt_of_not_lt_of_ne (behind last rfl edge List.mem_cons_self)
              rintro rfl
              exact fresh rfl
            refine List.pairwise_cons.2 ⟨?_, ascending⟩
            intro id member
            rcases List.mem_cons.1 member with rfl | member
            · exact above
            · exact EntityId.lt_trans above ((List.pairwise_cons.1 ascending).1 id member)

end SourceWalk

/-- The sources of a link, each once. -/
def MemoryStore.sourcesOf (store : MemoryStore) (typeId : TypeId) (linkId : LinkId) : IdSet where
  ids := SourceWalk.distinctSources none (store.edgesOf typeId linkId)
  ascending := SourceWalk.ascending_distinctSources (store.edgesOf_ordered typeId linkId).sources
    none (by simp)

theorem MemoryStore.mem_sourcesOf {store : MemoryStore} {typeId : TypeId} {linkId : LinkId}
    {id : EntityId} :
    id ∈ store.sourcesOf typeId linkId ↔
      ∃ edge ∈ store.edgesOf typeId linkId, edge.source = id := by
  constructor
  · exact SourceWalk.mem_of_mem_distinctSources
  · rintro ⟨edge, member, rfl⟩
    rcases SourceWalk.mem_distinctSources none member with impossible | source
    · cases impossible
    · exact source

theorem Traversal.delivers_ofSources (store : MemoryStore) (typeId : TypeId) (linkId : LinkId) :
    (ofSources typeId ((store.edgesOf typeId linkId).map MemoryStore.edgeEntry)).Delivers
      (store.sourcesOf typeId linkId).ids :=
  SourceWalk.delivers_of_faces (LinkWalk.faces_ofEntries store typeId linkId) none

/-! ## The sources with a target in a set -/

namespace JoinWalk

/-- The sources of edges into a set, each once, without those that were read before. -/
def joined (targets : IdSet) (distinct : List EntityId) : List StoredEdge → List EntityId
  | [] => []
  | edge :: rest =>
      if edge.source ∉ distinct ∧ edge.target ∈ targets then
        edge.source :: joined targets (edge.source :: distinct) rest
      else
        joined targets distinct rest

/-- A walk delivers the sources into its targets of the edges ahead of it. -/
theorem delivers_of_faces (targets : IdSet) {edges : List StoredEdge} {links : LinkWalk}
    (faces : links.Faces edges) (distinct : List EntityId) :
    joinReader.Delivers ⟨links, targets, distinct, none, false⟩
      (joined targets distinct edges) := by
  induction edges generalizing links distinct with
  | nil =>
      obtain ⟨after, taken⟩ := LinkWalk.nextEdge_of_faces_nil faces
      have sought : seek ⟨links, targets, distinct, none, false⟩ =
          (.ok (), ⟨after, targets, distinct, none, true⟩) := by
        rw [seek, taken]
      have step : next ⟨links, targets, distinct, none, false⟩ =
          (.ok none, ⟨after, targets, distinct, none, true⟩) := by
        simp [next, fill, sought]
      exact .ended step
  | cons edge others inductionHypothesis =>
      obtain ⟨after, taken, facesOthers⟩ := LinkWalk.nextEdge_of_faces_cons faces
      have accepted : (!distinct.contains edge.source && targets.contains edge.target) = true ↔
          edge.source ∉ distinct ∧ edge.target ∈ targets := by
        simp [IdSet.contains_iff_mem]
      rw [joined]
      split
      · rename_i joins
        have sought : seek ⟨links, targets, distinct, none, false⟩ =
            (.ok (), ⟨after, targets, distinct, some edge.source, false⟩) := by
          rw [seek, taken]
          exact if_pos (accepted.2 joins)
        have step : next ⟨links, targets, distinct, none, false⟩ =
            (.ok (some edge.source),
              ⟨after, targets, edge.source :: distinct, none, false⟩) := by
          simp [next, fill, sought]
        exact .yielded step (inductionHypothesis facesOthers _)
      · rename_i passes
        refine (inductionHypothesis facesOthers distinct).congr ?_
        have sought : seek ⟨links, targets, distinct, none, false⟩ =
            seek ⟨after, targets, distinct, none, false⟩ := by
          rw [seek, taken]
          exact if_neg (mt accepted.1 passes)
        show next _ = next _
        simp [next, fill, sought]

theorem mem_joined {targets : IdSet} {distinct : List EntityId} {edges : List StoredEdge}
    {id : EntityId} :
    id ∈ joined targets distinct edges ↔
      id ∉ distinct ∧ ∃ edge ∈ edges, edge.source = id ∧ edge.target ∈ targets := by
  induction edges generalizing distinct with
  | nil => simp [joined]
  | cons edge others inductionHypothesis =>
      have listed : (∃ other ∈ edge :: others, other.source = id ∧ other.target ∈ targets) ↔
          (edge.source = id ∧ edge.target ∈ targets) ∨
            ∃ other ∈ others, other.source = id ∧ other.target ∈ targets := by
        simp
      rw [joined, listed]
      split
      · rename_i joins
        rw [List.mem_cons, inductionHypothesis, List.mem_cons, not_or]
        constructor
        · rintro (rfl | ⟨⟨_, unread⟩, further⟩)
          · exact ⟨joins.1, .inl ⟨rfl, joins.2⟩⟩
          · exact ⟨unread, .inr further⟩
        · rintro ⟨unread, ⟨source, _⟩ | further⟩
          · exact .inl source.symm
          · by_cases same : id = edge.source
            · exact .inl same
            · exact .inr ⟨⟨same, unread⟩, further⟩
      · rename_i passes
        rw [inductionHypothesis]
        constructor
        · rintro ⟨unread, further⟩
          exact ⟨unread, .inr further⟩
        · rintro ⟨unread, ⟨rfl, target⟩ | further⟩
          · exact absurd ⟨unread, target⟩ passes
          · exact ⟨unread, further⟩

/-- Where the sources do not descend, those that join ascend. -/
theorem ascending_joined (targets : IdSet) {edges : List StoredEdge}
    (ordered : edges.Pairwise fun first second => ¬ second.source < first.source)
    (distinct : List EntityId) : (joined targets distinct edges).Pairwise (· < ·) := by
  induction edges generalizing distinct with
  | nil => exact List.Pairwise.nil
  | cons edge others inductionHypothesis =>
      obtain ⟨headFirst, othersOrdered⟩ := List.pairwise_cons.1 ordered
      rw [joined]
      split
      · refine List.pairwise_cons.2 ⟨?_, inductionHypothesis othersOrdered _⟩
        intro id member
        obtain ⟨unread, other, present, rfl, _⟩ := mem_joined.1 member
        apply EntityId.lt_of_not_lt_of_ne (headFirst other present)
        intro same
        exact unread (same ▸ List.mem_cons_self)
      · exact inductionHypothesis othersOrdered distinct

end JoinWalk

/-- The sources of a link with a target in a set, each once. -/
def MemoryStore.sourcesInto (store : MemoryStore) (typeId : TypeId) (linkId : LinkId)
    (targets : IdSet) : IdSet where
  ids := JoinWalk.joined targets [] (store.edgesOf typeId linkId)
  ascending := JoinWalk.ascending_joined targets (store.edgesOf_ordered typeId linkId).sources []

theorem MemoryStore.mem_sourcesInto {store : MemoryStore} {typeId : TypeId} {linkId : LinkId}
    {targets : IdSet} {id : EntityId} :
    id ∈ store.sourcesInto typeId linkId targets ↔
      ∃ edge ∈ store.edgesOf typeId linkId, edge.source = id ∧ edge.target ∈ targets := by
  rw [IdSet.mem_def, sourcesInto, JoinWalk.mem_joined]
  simp

theorem Traversal.delivers_ofJoin (store : MemoryStore) (typeId : TypeId) (linkId : LinkId)
    (targets : IdSet) :
    (ofJoin typeId ((store.edgesOf typeId linkId).map MemoryStore.edgeEntry) targets).Delivers
      (store.sourcesInto typeId linkId targets).ids :=
  JoinWalk.delivers_of_faces targets (LinkWalk.faces_ofEntries store typeId linkId) []

end EntityQuery
