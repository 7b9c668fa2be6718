import EntityQuery.Proofs.Engine.Reading
import EntityQuery.Proofs.Index.Layouts

/-!
# Joins over indexes in any order

A link index is joined with a set: the sources of its edges into the set are yielded, each once, in
the order of their first such edge.  Nothing is assumed of the order of the index.  The edges of one
source may stand anywhere, some of them leading into the set and some not.

What is yielded is described by what is left of the list of edges: only the edges into the set are
kept, and of each source only the first occurrence.  The sources that were read before are those
that are still to be left out, so the induction is over the edges for any list of such sources.

The entries of the index are arbitrary records that can be read.  A record that can be read is the
one that is written for its edge, so nothing is lost by taking the index as a list of edges.
-/

namespace EntityQuery

/-! ## Entries that can be read -/

/-- An edge as it is stored under a link. -/
def Edge.under (link : LinkId) (edge : Edge) : StoredEdge := ⟨edge.source, link, edge.target⟩

/-- The edge that an entry of a link index of a type stands for, if it can be read forward. -/
def Entry.edge? (typeId : TypeId) (entry : Entry) : Option Edge :=
  match entry.read with
  | .ok stored => (LinkWalk.decodeEdge typeId stored).toOption
  | .error _ => none

theorem LinkWalk.record_of_decodeEdge {typeId : TypeId} {record : Record} {edge : Edge}
    (decoded : decodeEdge typeId record = .ok edge) (link : LinkId) :
    Entry.record record = MemoryStore.edgeEntry (edge.under link) ∧
      edge.source.typeId = typeId := by
  obtain ⟨key, value⟩ := record
  rw [decodeEdge] at decoded
  cases source : Layout.decodeEntityKey typeId key with
  | error error =>
      simp only [source] at decoded
      cases decoded
  | ok id =>
      obtain ⟨rfl, ofType⟩ := Layout.eq_encodeLocalId_of_decodeEntityKey source
      simp only [source] at decoded
      cases target : Layout.decodeLinkTarget value with
      | error error =>
          rw [target] at decoded
          cases decoded
      | ok targetId =>
          rw [target] at decoded
          cases decoded
          rw [Layout.eq_encodeLinkTarget_of_decode target]
          exact ⟨rfl, ofType⟩

/-- An entry that can be read as an edge reads like the entry of this edge. -/
theorem Entry.read_of_edge? {typeId : TypeId} {entry : Entry} {edge : Edge}
    (decoded : entry.edge? typeId = some edge) (link : LinkId) :
    entry.read = (MemoryStore.edgeEntry (edge.under link)).read ∧
      edge.source.typeId = typeId := by
  rw [edge?] at decoded
  cases reads : entry.read with
  | error error =>
      rw [reads] at decoded
      cases decoded
  | ok stored =>
      simp only [reads] at decoded
      cases decodes : LinkWalk.decodeEdge typeId stored with
      | error error =>
          rw [decodes] at decoded
          cases decoded
      | ok other =>
          rw [decodes] at decoded
          cases decoded
          obtain ⟨written, ofType⟩ := LinkWalk.record_of_decodeEdge decodes link
          exact ⟨congrArg Entry.read written, ofType⟩

/-- Entries that can be read as edges read like the entries of these edges. -/
theorem LinkWalk.faces_of_edges {typeId : TypeId} {entries : List Entry} {edges : List Edge}
    (decoded : entries.map (Entry.edge? typeId) = edges.map some) (link : LinkId) :
    (ofEntries typeId entries).Faces (edges.map (Edge.under link)) := by
  have written : entries.map Entry.read =
        ((edges.map (Edge.under link)).map MemoryStore.edgeEntry).map Entry.read ∧
      ∀ edge ∈ edges.map (Edge.under link), edge.source.typeId = typeId := by
    induction edges generalizing entries with
    | nil =>
        rw [List.map_eq_nil_iff.1 decoded]
        exact ⟨rfl, nofun⟩
    | cons edge others inductionHypothesis =>
        obtain ⟨entry, further, rfl, first, behind⟩ := List.map_eq_cons_iff.1 decoded
        obtain ⟨reads, ofType⟩ := Entry.read_of_edge? first link
        obtain ⟨othersRead, othersOfType⟩ := inductionHypothesis behind
        exact ⟨congrArg₂ List.cons reads othersRead, List.forall_mem_cons.2 ⟨ofType, othersOfType⟩⟩
  exact ⟨written.2, written.1 ▸ Probe.faces_ofEntries entries⟩

/-! ## What a join yields -/

namespace JoinWalk

/-- The sources of edges into a set, each once and in the order of its first such edge. -/
def firstSources (targets : IdSet) (edges : List Edge) : List EntityId :=
  ((edges.filter fun edge => targets.contains edge.target).map Edge.source).eraseDups

/-- Of the sources into the targets, those that were read before are left out. -/
theorem joined_eq (targets : IdSet) (distinct : List EntityId) (link : LinkId)
    (edges : List Edge) :
    joined targets distinct (edges.map (Edge.under link)) =
      (((edges.filter fun edge => targets.contains edge.target).map Edge.source).filter
        fun id => !distinct.contains id).eraseDups := by
  induction edges generalizing distinct with
  | nil => rfl
  | cons edge others inductionHypothesis =>
      rw [List.map_cons, joined]
      by_cases targeted : edge.target ∈ targets
      · have kept : targets.contains edge.target = true := IdSet.contains_iff_mem.2 targeted
        rw [List.filter_cons, if_pos kept, List.map_cons, List.filter_cons]
        by_cases read : edge.source ∈ distinct
        · have seen : ¬(!distinct.contains edge.source) = true := by simpa using read
          rw [if_neg seen, if_neg fun accepted => accepted.1 read]
          exact inductionHypothesis distinct
        · have unseen : (!distinct.contains edge.source) = true := by simpa using read
          rw [if_pos unseen, if_pos ⟨read, targeted⟩, List.eraseDups_cons, List.filter_filter,
            inductionHypothesis]
          congr 2
          refine List.filter_congr fun id _ => ?_
          rw [List.contains_cons, Bool.not_or]
          rfl
      · have lost : ¬targets.contains edge.target = true :=
          fun contained => targeted (IdSet.contains_iff_mem.1 contained)
        rw [List.filter_cons, if_neg lost, if_neg fun accepted => targeted accepted.2]
        exact inductionHypothesis distinct

theorem mem_firstSources {targets : IdSet} {edges : List Edge} {id : EntityId} :
    id ∈ firstSources targets edges ↔
      ∃ edge ∈ edges, edge.target ∈ targets ∧ edge.source = id := by
  simp [firstSources, List.mem_eraseDups, IdSet.contains_iff_mem, and_assoc]

theorem nodup_eraseDups (ids : List EntityId) : ids.eraseDups.Nodup := by
  cases ids with
  | nil => exact .nil
  | cons first others =>
      rw [List.eraseDups_cons]
      refine List.nodup_cons.2 ⟨?_, nodup_eraseDups (others.filter fun id => !id == first)⟩
      simp [List.mem_eraseDups]
termination_by ids.length
decreasing_by exact Nat.lt_succ_of_le (List.length_filter_le _ _)

theorem nodup_firstSources (targets : IdSet) (edges : List Edge) :
    (firstSources targets edges).Nodup :=
  nodup_eraseDups _

/-- A walk that was just opened delivers the sources into its targets. -/
theorem delivers_firstSources {typeId : TypeId} {entries : List Entry} {edges : List Edge}
    (decoded : entries.map (Entry.edge? typeId) = edges.map some) (targets : IdSet) :
    joinReader.Delivers (ofEntries typeId entries targets) (firstSources targets edges) := by
  have delivers := delivers_of_faces targets (LinkWalk.faces_of_edges decoded 0) []
  have nothingRead (sources : List EntityId) :
      (sources.filter fun id => !([] : List EntityId).contains id) = sources :=
    List.filter_eq_self.2 fun _ _ => rfl
  rwa [joined_eq, nothingRead] at delivers

end JoinWalk

/-! ## Calls -/

/-- The identities among replies. -/
def Forward.yielded (replies : List (Except QueryError ReaderReply)) : List EntityId :=
  replies.filterMap fun
    | .ok (.identity found) => found
    | _ => none

/-- Every call that reads yields the next of the identities ahead, whatever was asked in between. -/
theorem Forward.yielded_replies (calls : List Forward) (ids : List EntityId) :
    yielded (replies calls ids) = ids.take (calls.count .next) := by
  induction calls generalizing ids with
  | nil => rfl
  | cons call rest inductionHypothesis =>
      cases call with
      | hasNext => exact inductionHypothesis ids
      | next =>
          rw [List.count_cons_self, replies]
          cases ids with
          | nil => exact (inductionHypothesis []).trans List.take_nil
          | cons id others => exact congrArg (id :: ·) (inductionHypothesis others)

namespace Traversal

/--
A join of an index that can be read yields the sources of the edges into the set, each once and in
the order of its first such edge.  The index may have any order, and the calls may ask ahead at any
time: a question tells whether a further source is left, and the end follows the last source.
-/
theorem forth_ofJoin {typeId : TypeId} {entries : List Entry} {edges : List Edge}
    (decoded : entries.map (Entry.edge? typeId) = edges.map some) (targets : IdSet)
    (calls : List Forward) :
    ((ofJoin typeId entries targets).forth calls).1 =
        Forward.replies calls (JoinWalk.firstSources targets edges) ∧
      Forward.yielded ((ofJoin typeId entries targets).forth calls).1 =
        (JoinWalk.firstSources targets edges).take (calls.count .next) ∧
      (JoinWalk.firstSources targets edges).Nodup ∧
      ∀ id, id ∈ JoinWalk.firstSources targets edges ↔
        ∃ edge ∈ edges, edge.target ∈ targets ∧ edge.source = id := by
  have stands : (ofJoin typeId entries targets).Stands (JoinWalk.firstSources targets edges) :=
    ⟨trivial, JoinWalk.delivers_firstSources decoded targets⟩
  have replied := (stands.forth calls).1
  refine ⟨replied, ?_, JoinWalk.nodup_firstSources targets edges, ?_⟩
  · rw [replied, Forward.yielded_replies]
  · intro id
    exact JoinWalk.mem_firstSources

/-- The edges of two sources take turns, one of them parallel and one of them not into the set. -/
theorem forth_ofJoin_unsorted :
    let edges : List Edge :=
      [⟨⟨1, 9⟩, ⟨2, 1⟩⟩, ⟨⟨1, 4⟩, ⟨2, 3⟩⟩, ⟨⟨1, 9⟩, ⟨2, 3⟩⟩, ⟨⟨1, 4⟩, ⟨2, 3⟩⟩, ⟨⟨1, 9⟩, ⟨2, 8⟩⟩]
    let entries := (edges.map (Edge.under 7)).map MemoryStore.edgeEntry
    let join := ofJoin 1 entries (.ofList [⟨2, 3⟩, ⟨2, 8⟩])
    let calls : List Forward := [.hasNext, .next, .hasNext, .hasNext, .next, .hasNext, .next]
    entries.map (Entry.edge? 1) = edges.map some ∧
      (join.forth calls).1 =
        [.ok (.flag true), .ok (.identity (some ⟨1, 4⟩)), .ok (.flag true), .ok (.flag true),
          .ok (.identity (some ⟨1, 9⟩)), .ok (.flag false), .ok (.identity none)] ∧
      Forward.yielded (join.forth calls).1 = [⟨1, 4⟩, ⟨1, 9⟩] := by
  intro edges entries join calls
  have decoded : entries.map (Entry.edge? 1) = edges.map some := by decide
  obtain ⟨replied, yielded, _⟩ := forth_ofJoin decoded (.ofList [⟨2, 3⟩, ⟨2, 8⟩]) calls
  refine ⟨decoded, replied.trans ?_, yielded.trans ?_⟩
  · decide
  · decide

end Traversal

end EntityQuery
