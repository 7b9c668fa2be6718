import Mathlib.Data.Set.Insert
import EntityQuery.Proofs.Query.Keys
import EntityQuery.Store.Memory

/-!
# The entities that a query stands for

A query stands for a set of entities of a store.  The set is defined here on the indexes of the
store, without readers, cursors or the cache; running a query is compared with it.

The set of a selection depends on the store only through the indexes that the key of the selection
names, and on the selection only through its key.  What a tree of constructors denotes is told by
the stored entities and edges themselves, and the query that is built stands for just that.
-/

namespace EntityQuery

/-- The sources of the edges of a link into some targets. -/
def MemoryStore.sourcesWithLink (store : MemoryStore) (link : LinkId) (targets : Set EntityId) :
    Set EntityId :=
  {id | ∃ edge ∈ store.edges, edge.source = id ∧ edge.link = link ∧ edge.target ∈ targets}

/-- The index of a link of a type holds the edges of the sources of the type. -/
theorem MemoryStore.mem_sourcesWithLink {store : MemoryStore} {typeId : TypeId} {link : LinkId}
    {targets : Set EntityId} {id : EntityId} :
    id ∈ store.sourcesWithLink link targets ∧ id.typeId = typeId ↔
      ∃ edge ∈ store.edgesOf typeId link, edge.source = id ∧ edge.target ∈ targets := by
  constructor
  · rintro ⟨⟨edge, stored, rfl, ofLink, targeted⟩, ofType⟩
    exact ⟨edge, mem_edgesOf.2 ⟨stored, ofType, ofLink⟩, rfl, targeted⟩
  · rintro ⟨edge, among, rfl, targeted⟩
    obtain ⟨stored, ofType, ofLink⟩ := mem_edgesOf.1 among
    exact ⟨⟨edge, stored, rfl, ofLink, targeted⟩, ofType⟩

/-- Two stores hold the same in every index that a key names. -/
structure QueryKey.SameIndexes (key : QueryKey) (first second : MemoryStore) : Prop where
  entities : ∀ typeId ∈ key.affectingTypes, first.entitiesOf typeId = second.entitiesOf typeId
  edges : ∀ typeId ∈ key.affectingTypes, ∀ linkId ∈ key.affectingLinks,
    first.edgesOf typeId linkId = second.edgesOf typeId linkId

theorem QueryKey.SameIndexes.mono {larger smaller : QueryKey} {first second : MemoryStore}
    (same : larger.SameIndexes first second)
    (types : ∀ typeId ∈ smaller.affectingTypes, typeId ∈ larger.affectingTypes)
    (links : ∀ linkId ∈ smaller.affectingLinks, linkId ∈ larger.affectingLinks) :
    smaller.SameIndexes first second where
  entities typeId named := same.entities typeId (types typeId named)
  edges typeId namedType linkId namedLink :=
    same.edges typeId (types typeId namedType) linkId (links linkId namedLink)

theorem QueryKey.SameIndexes.operands {kind : QueryKind} {left right : QueryKey}
    {first second : MemoryStore}
    (same : (ofParts kind [.operand left, .operand right]).SameIndexes first second) :
    left.SameIndexes first second ∧ right.SameIndexes first second := by
  constructor
  · apply same.mono
    · exact fun _ named => mem_affectingTypes_pair.2 (.inl named)
    · exact fun _ named => mem_affectingLinks_pair.2 (.inl named)
  · apply same.mono
    · exact fun _ named => mem_affectingTypes_pair.2 (.inr named)
    · exact fun _ named => mem_affectingLinks_pair.2 (.inr named)

theorem QueryKey.SameIndexes.decorated {kind : QueryKind} {base decoration : QueryKey}
    {first second : MemoryStore}
    (same : (QueryKey.decorated kind base decoration).SameIndexes first second) :
    base.SameIndexes first second ∧ decoration.SameIndexes first second := by
  constructor
  · apply same.mono
    · exact fun _ named => mem_affectingTypes_decorated.2 (.inl named)
    · exact fun _ named => mem_affectingLinks_decorated.2 (.inl named)
  · apply same.mono
    · exact fun _ named => mem_affectingTypes_decorated.2 (.inr named)
    · exact fun _ named => mem_affectingLinks_decorated.2 (.inr named)

theorem Selection.entitiesOf_congr {typeId : TypeId} {first second : MemoryStore}
    (same : (ofType typeId).key.SameIndexes first second) :
    first.entitiesOf typeId = second.entitiesOf typeId := by
  apply same.entities
  simp [key, KeyPart.map, QueryKey.partTypes]

theorem Selection.edgesOf_congr {typeId : TypeId} {linkId : LinkId} {first second : MemoryStore}
    (same : (withLinkKey typeId linkId).SameIndexes first second) :
    first.edgesOf typeId linkId = second.edgesOf typeId linkId := by
  apply same.edges
  · simp [withLinkKey, KeyPart.map, QueryKey.partTypes]
  · simp [withLinkKey, KeyPart.map, QueryKey.partLinks]

namespace Selection

/-- The entities that a selection stands for. -/
def members (store : MemoryStore) : Selection → Set EntityId
  | .ofType typeId => {id | id ∈ store.entitiesOf typeId}
  | .withLink typeId linkId => {id | ∃ edge ∈ store.edgesOf typeId linkId, edge.source = id}
  | .linkedTo typeId linkId target =>
      {id | ∃ edge ∈ store.edgesOf typeId linkId,
        edge.source = id ∧ edge.target ∈ target.members store}
  | .union left right => left.members store ∪ right.members store
  | .inter left right => left.members store ∩ right.members store

/-! ## What the set depends on -/

theorem members_congr_store {first second : MemoryStore} {selection : Selection}
    (same : selection.key.SameIndexes first second) :
    selection.members first = selection.members second := by
  induction selection with
  | ofType typeId => rw [members, members, entitiesOf_congr same]
  | withLink typeId linkId => rw [members, members, edgesOf_congr same]
  | linkedTo typeId linkId target inductionHypothesis =>
      obtain ⟨sameEdges, sameTarget⟩ := same.decorated
      rw [members, members, inductionHypothesis sameTarget, edgesOf_congr sameEdges]
  | union left right leftHypothesis rightHypothesis
  | inter left right leftHypothesis rightHypothesis =>
      obtain ⟨sameLeft, sameRight⟩ := same.operands
      rw [members, members, leftHypothesis sameLeft, rightHypothesis sameRight]

/-- Selections with one key are interchangeable. -/
theorem members_congr_key (store : MemoryStore) {first second : Selection}
    (sameKey : first.key = second.key) : first.members store = second.members store := by
  induction first generalizing second with
  | ofType typeId =>
      have sameKind := congrArg QueryKey.kind sameKey
      cases second with
      | ofType otherType =>
          have sameParts := congrArg QueryKey.parts sameKey
          simp only [key, QueryKey.ofParts, QueryKey.parts, QueryKind.isCommutative] at sameParts
          simp at sameParts
          rw [sameParts]
      | _ => cases sameKind
  | withLink typeId linkId =>
      have sameKind := congrArg QueryKey.kind sameKey
      cases second with
      | withLink otherType otherLink =>
          have sameParts := congrArg QueryKey.parts sameKey
          simp [key, withLinkKey, QueryKey.ofParts, QueryKey.parts, QueryKind.isCommutative]
            at sameParts
          rw [sameParts.1, sameParts.2]
      | _ => cases sameKind
  | linkedTo typeId linkId target inductionHypothesis =>
      have sameKind := congrArg QueryKey.kind sameKey
      cases second with
      | linkedTo otherType otherLink otherTarget =>
          have sameParts := congrArg QueryKey.parts sameKey
          simp [key, withLinkKey, QueryKey.ofParts, QueryKey.decorated, QueryKey.parts,
            QueryKind.isCommutative] at sameParts
          have sameDecoration := congrArg QueryKey.decoration sameKey
          have sameTargets := inductionHypothesis (Option.some.inj sameDecoration)
          rw [sameParts.1, sameParts.2, members, members, sameTargets]
      | _ => cases sameKind
  | union left right leftHypothesis rightHypothesis =>
      have sameKind := congrArg QueryKey.kind sameKey
      cases second with
      | union otherLeft otherRight =>
          rcases QueryKey.operands_of_ofParts_eq sameKey with
            ⟨leftKey, rightKey⟩ | ⟨leftKey, rightKey⟩
          · rw [members, members, leftHypothesis leftKey, rightHypothesis rightKey]
          · rw [members, members, leftHypothesis leftKey, rightHypothesis rightKey, Set.union_comm]
      | _ => cases sameKind
  | inter left right leftHypothesis rightHypothesis =>
      have sameKind := congrArg QueryKey.kind sameKey
      cases second with
      | inter otherLeft otherRight =>
          rcases QueryKey.operands_of_ofParts_eq sameKey with
            ⟨leftKey, rightKey⟩ | ⟨leftKey, rightKey⟩
          · rw [members, members, leftHypothesis leftKey, rightHypothesis rightKey]
          · rw [members, members, leftHypothesis leftKey, rightHypothesis rightKey, Set.inter_comm]
      | _ => cases sameKind

end Selection

/-! ## Queries as they are written -/

namespace Query

/-- The entities that a query stands for. -/
def members (store : MemoryStore) : Query → Set EntityId
  | .empty => ∅
  | .select selection => selection.members store

theorem members_congr_key (store : MemoryStore) {first second : Query}
    (sameKey : first.key = second.key) : first.members store = second.members store := by
  cases first with
  | empty =>
      cases second with
      | empty => rfl
      | select second =>
          have sameKind := congrArg QueryKey.kind sameKey
          cases second <;> cases sameKind
  | select first =>
      cases second with
      | empty =>
          have sameKind := congrArg QueryKey.kind sameKey
          cases first <;> cases sameKind
      | select second => exact Selection.members_congr_key store sameKey

/-! The indexes hold what is stored, and the short circuits of the constructors keep the set. -/

section Constructors

variable {store : MemoryStore} {typeId : TypeId} {linkId : LinkId} {id : EntityId}

theorem mem_members_ofType :
    id ∈ (ofType typeId).members store ↔ id ∈ store.entities ∧ id.typeId = typeId :=
  MemoryStore.mem_entitiesOf

theorem mem_members_withLink :
    id ∈ (withLink typeId linkId).members store ↔
      id ∈ store.sourcesWithLink linkId Set.univ ∧ id.typeId = typeId := by
  rw [MemoryStore.mem_sourcesWithLink]
  simp only [Set.mem_univ, and_true]
  rfl

theorem mem_members_linkedTo {target : Query} :
    id ∈ (target.linkedTo typeId linkId).members store ↔
      id ∈ store.sourcesWithLink linkId (target.members store) ∧ id.typeId = typeId := by
  rw [MemoryStore.mem_sourcesWithLink]
  cases target with
  | empty => simp [linkedTo, members]
  | select selection => rfl

end Constructors

theorem members_union (store : MemoryStore) (left right : Query) :
    (left.union right).members store = left.members store ∪ right.members store := by
  cases left with
  | empty => simp [union, members]
  | select leftSelection =>
      cases right with
      | empty => simp [union, members]
      | select rightSelection => rfl

theorem members_inter (store : MemoryStore) (left right : Query) :
    (left.inter right).members store = left.members store ∩ right.members store := by
  cases left with
  | empty => simp [inter, members]
  | select leftSelection =>
      cases right with
      | empty => simp [inter, members]
      | select rightSelection => rfl

end Query

/--
A tree of query constructors.  Any constructor may be applied to any operands, also to empty ones.
-/
inductive QueryTree where
  | empty
  | ofType (typeId : TypeId)
  | withLink (typeId : TypeId) (linkId : LinkId)
  | linkedTo (typeId : TypeId) (linkId : LinkId) (target : QueryTree)
  | union (left right : QueryTree)
  | inter (left right : QueryTree)

namespace QueryTree

/-- The query that the constructors build. -/
def build : QueryTree → Query
  | .empty => .empty
  | .ofType typeId => .ofType typeId
  | .withLink typeId linkId => .withLink typeId linkId
  | .linkedTo typeId linkId target => target.build.linkedTo typeId linkId
  | .union left right => left.build.union right.build
  | .inter left right => left.build.inter right.build

/-- The set that the constructors denote, told by what is stored and not by the indexes. -/
def denoted (store : MemoryStore) : QueryTree → Set EntityId
  | .empty => ∅
  | .ofType typeId => {id | id ∈ store.entities ∧ id.typeId = typeId}
  | .withLink typeId linkId =>
      {id | id ∈ store.sourcesWithLink linkId Set.univ ∧ id.typeId = typeId}
  | .linkedTo typeId linkId target =>
      {id | id ∈ store.sourcesWithLink linkId (target.denoted store) ∧ id.typeId = typeId}
  | .union left right => left.denoted store ∪ right.denoted store
  | .inter left right => left.denoted store ∩ right.denoted store

/-- The query that is built stands for the set that its constructors denote. -/
theorem members_build (store : MemoryStore) (tree : QueryTree) :
    tree.build.members store = tree.denoted store := by
  induction tree with
  | empty => rfl
  | ofType typeId => exact Set.ext fun _ => Query.mem_members_ofType
  | withLink typeId linkId => exact Set.ext fun _ => Query.mem_members_withLink
  | linkedTo typeId linkId target inductionHypothesis =>
      rw [denoted, ← inductionHypothesis]
      exact Set.ext fun _ => Query.mem_members_linkedTo
  | union left right leftHypothesis rightHypothesis =>
      rw [denoted, ← leftHypothesis, ← rightHypothesis, build, Query.members_union]
  | inter left right leftHypothesis rightHypothesis =>
      rw [denoted, ← leftHypothesis, ← rightHypothesis, build, Query.members_inter]

end QueryTree

end EntityQuery
