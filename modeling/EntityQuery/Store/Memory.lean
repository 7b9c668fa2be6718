import EntityQuery.IdSet
import EntityQuery.Index.Layout
import EntityQuery.Store.View

/-!
# A store in memory

The store is the set of its entities and the sorted list of its edges.  Edges may be parallel, and
neither their sources nor their targets need be entities of the store.  The order of the edges is
part of the type.  Link names are numbered from one in the order of their first use.
-/

namespace EntityQuery

/-- One edge: a source has a link to a target. -/
structure StoredEdge where
  source : EntityId
  link : LinkId
  target : EntityId
deriving DecidableEq, Repr

namespace StoredEdge

/-- Whether an edge belongs before another one: by source, then by target. -/
def before (first second : StoredEdge) : Bool :=
  first.source < second.source
    || (first.source = second.source && decide (first.target < second.target))

/-- Insert an edge into a sorted list; parallel edges are kept. -/
def insertInto (edge : StoredEdge) : List StoredEdge → List StoredEdge
  | [] => [edge]
  | head :: rest =>
      if before edge head then edge :: head :: rest else head :: insertInto edge rest

/-- A list of edges in which none stands behind one that it belongs before. -/
def Ordered (edges : List StoredEdge) : Prop :=
  edges.Pairwise fun first second => before second first = false

theorem before_iff {first second : StoredEdge} :
    before first second = true ↔
      first.source < second.source ∨
        (first.source = second.source ∧ first.target < second.target) := by
  simp [before]

theorem before_trans {first second third : StoredEdge} (firstBefore : before first second = true)
    (secondBefore : before second third = true) : before first third = true := by
  rw [before_iff] at *
  rcases firstBefore with firstLess | ⟨firstSame, firstLess⟩ <;>
    rcases secondBefore with secondLess | ⟨secondSame, secondLess⟩
  · exact .inl (EntityId.lt_trans firstLess secondLess)
  · exact .inl (secondSame ▸ firstLess)
  · exact .inl (firstSame ▸ secondLess)
  · exact .inr ⟨firstSame.trans secondSame, EntityId.lt_trans firstLess secondLess⟩

theorem before_irrefl (edge : StoredEdge) : before edge edge = false := by
  rw [← Bool.not_eq_true, before_iff]
  rintro (less | ⟨_, less⟩)
  · exact EntityId.lt_irrefl _ less
  · exact EntityId.lt_irrefl _ less

theorem before_asymm {first second : StoredEdge} (firstBefore : before first second = true) :
    before second first = false := by
  rw [← Bool.not_eq_true]
  intro secondBefore
  have impossible := before_trans firstBefore secondBefore
  rw [before_irrefl] at impossible
  cases impossible

@[simp]
theorem mem_insertInto {edge other : StoredEdge} {edges : List StoredEdge} :
    other ∈ insertInto edge edges ↔ other = edge ∨ other ∈ edges := by
  induction edges with
  | nil => simp [insertInto]
  | cons head rest inductionHypothesis =>
      simp only [insertInto]
      split
      · simp
      · simp only [List.mem_cons, inductionHypothesis]
        constructor <;> rintro (same | same | member) <;> simp_all

theorem ordered_insertInto {edge : StoredEdge} {edges : List StoredEdge}
    (ordered : Ordered edges) : Ordered (insertInto edge edges) := by
  induction edges with
  | nil => simp [insertInto, Ordered]
  | cons head rest inductionHypothesis =>
      obtain ⟨headFirst, restOrdered⟩ := List.pairwise_cons.1 ordered
      simp only [insertInto]
      split
      · rename_i edgeBefore
        refine List.pairwise_cons.2 ⟨?_, ordered⟩
        intro other member
        rcases List.mem_cons.1 member with rfl | member
        · exact before_asymm edgeBefore
        · -- An edge before the inserted one would also be before the head.
          rw [← Bool.not_eq_true]
          intro otherBefore
          have impossible := before_trans otherBefore edgeBefore
          rw [headFirst other member] at impossible
          cases impossible
      · rename_i edgeNotBefore
        refine List.pairwise_cons.2 ⟨?_, inductionHypothesis restOrdered⟩
        intro other member
        rcases mem_insertInto.1 member with rfl | member
        · simpa using edgeNotBefore
        · exact headFirst other member

end StoredEdge

/-- Entities, edges and link names at a version. -/
structure MemoryStore where
  entities : IdSet
  /-- The edges by source, then by target. -/
  edges : List StoredEdge
  ordered : StoredEdge.Ordered edges
  /-- The link names in the order of their numbers. -/
  linkNames : List String
  version : Nat

namespace MemoryStore

def empty : MemoryStore := ⟨.empty, [], List.Pairwise.nil, [], 0⟩

/-! ## Changes -/

def setVersion (store : MemoryStore) (version : Nat) : MemoryStore :=
  { store with version }

def addEntity (store : MemoryStore) (id : EntityId) : MemoryStore :=
  { store with entities := store.entities.insert id }

/-- Remove an entity and the edges that start at it. -/
def removeEntity (store : MemoryStore) (id : EntityId) : MemoryStore :=
  { store with
    entities := store.entities.erase id
    edges := store.edges.filter fun edge => edge.source ≠ id
    ordered := store.ordered.filter _ }

/-- The number of a link name that is in use. -/
def linkNumber? (store : MemoryStore) (name : String) : Option LinkId :=
  (store.linkNames.idxOf? name).map fun index => (index + 1).toUInt32

/-- The number of a link name, which gets the next one if it is new. -/
def linkNumber (store : MemoryStore) (name : String) : LinkId × MemoryStore :=
  match store.linkNumber? name with
  | some number => (number, store)
  | none =>
      ((store.linkNames.length + 1).toUInt32,
        { store with linkNames := store.linkNames ++ [name] })

def addEdge (store : MemoryStore) (edge : StoredEdge) : MemoryStore :=
  { store with
    edges := edge.insertInto store.edges
    ordered := StoredEdge.ordered_insertInto store.ordered }

/-- Add an edge of a named link and answer the number of the name. -/
def addLink (store : MemoryStore) (source : EntityId) (name : String) (target : EntityId) :
    LinkId × MemoryStore :=
  let (link, numbered) := store.linkNumber name
  (link, numbered.addEdge ⟨source, link, target⟩)

/-! ## Indexes -/

def entitiesOf (store : MemoryStore) (typeId : TypeId) : List EntityId :=
  store.entities.ids.filter fun id => id.typeId = typeId

/-- The edges of a link that start at a type, by source and target. -/
def edgesOf (store : MemoryStore) (typeId : TypeId) (linkId : LinkId) : List StoredEdge :=
  store.edges.filter fun edge => edge.source.typeId = typeId && edge.link = linkId

@[simp]
theorem mem_entitiesOf {store : MemoryStore} {typeId : TypeId} {id : EntityId} :
    id ∈ store.entitiesOf typeId ↔ id ∈ store.entities ∧ id.typeId = typeId := by
  simp [entitiesOf, IdSet.mem_def]

@[simp]
theorem mem_edgesOf {store : MemoryStore} {typeId : TypeId} {linkId : LinkId}
    {edge : StoredEdge} :
    edge ∈ store.edgesOf typeId linkId ↔
      edge ∈ store.edges ∧ edge.source.typeId = typeId ∧ edge.link = linkId := by
  simp [edgesOf]

theorem entitiesOf_ascending (store : MemoryStore) (typeId : TypeId) :
    (store.entitiesOf typeId).Pairwise (· < ·) :=
  store.entities.ascending.filter _

theorem edgesOf_ordered (store : MemoryStore) (typeId : TypeId) (linkId : LinkId) :
    StoredEdge.Ordered (store.edgesOf typeId linkId) :=
  store.ordered.filter _

def entityEntry (id : EntityId) : Entry :=
  .record ⟨Layout.encodeLocalId id.localId, []⟩

def edgeEntry (edge : StoredEdge) : Entry :=
  .record ⟨Layout.encodeLocalId edge.source.localId, Layout.encodeLinkTarget edge.target⟩

def view (store : MemoryStore) : StoreView where
  version := store.version
  entities _ typeId := .ok ((store.entitiesOf typeId).map entityEntry)
  links _ typeId linkId := .ok ((store.edgesOf typeId linkId).map edgeEntry)
  count typeId := .called (.ok (store.entitiesOf typeId).length)
  resolve name := .ok (store.linkNumber? name)

end MemoryStore

end EntityQuery
