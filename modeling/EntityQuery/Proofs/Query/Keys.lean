import Mathlib.Data.List.Permutation
import EntityQuery.Query.Basic
import EntityQuery.Query.Reaction

/-!
# Keys of selections

A key stores the operands of unions and intersections in the order of their texts.  This module
removes the order: whatever is computed from a key by `QueryKey.recurse` is expressed through the
operands of the selection itself.  There are three results of this kind.

The affecting types and links of a selection are those of its parts.  The reactions to a change are
computed from the reactions of the operands.  Two selections with one key are built alike, up to
exchanging operands.
-/

namespace EntityQuery

/-! ## Lists of numbers -/

namespace QueryKey

@[simp]
theorem mem_insertNumber {number other : UInt32} {numbers : List UInt32} :
    other ∈ insertNumber number numbers ↔ other = number ∨ other ∈ numbers := by
  induction numbers with
  | nil => simp [insertNumber]
  | cons head rest inductionHypothesis =>
      simp only [insertNumber]
      split
      · simp
      · split
        · simp_all
        · simp only [List.mem_cons, inductionHypothesis]
          constructor <;> rintro (same | same | member) <;> simp_all

@[simp]
theorem mem_ascending {number : UInt32} {numbers : List UInt32} :
    number ∈ ascending numbers ↔ number ∈ numbers := by
  induction numbers with
  | nil => simp [ascending]
  | cons head rest inductionHypothesis =>
      simp only [ascending, List.foldr_cons, mem_insertNumber, List.mem_cons] at *
      rw [inductionHypothesis]

/-! ## Parts and operands -/

theorem operandValues_map {κ α : Type} (value : κ → α) (parts : List (KeyPart κ))
    (decoration : Option κ) :
    operandValues (parts.map (KeyPart.map value)) (decoration.map value) =
      (operandValues parts decoration).map value := by
  have partValues :
      (parts.map (KeyPart.map value)).filterMap KeyPart.operand? =
        (parts.filterMap KeyPart.operand?).map value := by
    rw [List.filterMap_map, List.map_filterMap]
    apply List.filterMap_congr
    intro part _
    cases part <;> rfl
  rw [operandValues, operandValues, partValues, List.map_append]
  cases decoration <;> rfl

/-- Building a key only reorders the parts. -/
theorem parts_ofParts_perm (kind : QueryKind) (parts : List (KeyPart QueryKey)) :
    (ofParts kind parts).parts.Perm parts := by
  show (if kind.isCommutative then parts.mergeSort partLe else parts).Perm parts
  split
  · exact List.mergeSort_perm _ _
  · exact List.Perm.refl _

theorem operands_ofParts_perm (kind : QueryKind) (parts : List (KeyPart QueryKey)) :
    (ofParts kind parts).operands.Perm (parts.filterMap KeyPart.operand?) := by
  have reordered := (parts_ofParts_perm kind parts).filterMap KeyPart.operand?
  simpa [operands, operandValues, ofParts, decoration] using reordered

/-- The key of two operands stores them in one of two orders. -/
theorem ofParts_pair (kind : QueryKind) (first second : QueryKey) :
    ofParts kind [.operand first, .operand second] =
        .node kind [.operand first, .operand second] none ∨
      ofParts kind [.operand first, .operand second] =
        .node kind [.operand second, .operand first] none := by
  have reordered := parts_ofParts_perm kind [.operand first, .operand second]
  obtain ⟨one, other, stored⟩ := List.length_eq_two.1 reordered.length_eq
  rw [stored, List.perm_pair] at reordered
  have key : ofParts kind [.operand first, .operand second] = .node kind [one, other] none := by
    rw [← stored]
    rfl
  rcases reordered with ⟨rfl, rfl⟩ | ⟨rfl, rfl⟩
  · exact .inl key
  · exact .inr key

/-- A commutative key of two operands determines them up to exchange. -/
theorem operands_of_ofParts_eq {kind : QueryKind} {first second third fourth : QueryKey}
    (same : ofParts kind [.operand first, .operand second] =
      ofParts kind [.operand third, .operand fourth]) :
    (first = third ∧ second = fourth) ∨ (first = fourth ∧ second = third) := by
  have reordered :
      ([.operand first, .operand second] : List (KeyPart QueryKey)).Perm
        [.operand third, .operand fourth] := by
    refine (parts_ofParts_perm kind _).symm.trans ?_
    rw [same]
    exact parts_ofParts_perm kind _
  have listed := List.perm_pair.1 reordered
  simpa using listed

/-- A commutative key does not depend on the order of two operands with different texts. -/
theorem ofParts_exchange {kind : QueryKind} (commutes : kind.isCommutative = true)
    {left right : QueryKey} (below : left.canonical ≤ right.canonical)
    (notAbove : ¬ right.canonical ≤ left.canonical) :
    ofParts kind [.operand left, .operand right] =
      ofParts kind [.operand right, .operand left] := by
  have forwards : partLe (.operand left) (.operand right) = true := decide_eq_true below
  have backwards : partLe (.operand right) (.operand left) = false := decide_eq_false notAbove
  simp [ofParts, commutes, List.mergeSort, List.MergeSort.Internal.splitInTwo, forwards, backwards]

/-! ## Affecting types and links

Both lists are computed alike: a node names numbers of its own, and passes on those of its
operands. -/

section Affecting

variable (named : KeyPart (List UInt32) → List UInt32)

/-- The numbers that a key and all its operands name. -/
def collected : QueryKey → List UInt32 :=
  recurse fun _ parts decoration => ascending (parts.flatMap named ++ decoration.getD [])

theorem mem_collected (key : QueryKey) (number : UInt32) :
    number ∈ collected named key ↔
      (∃ part ∈ key.parts, number ∈ named (part.map (collected named))) ∨
        ∃ operand ∈ key.decoration, number ∈ collected named operand := by
  rw [collected, recurse_eq, mem_ascending, List.mem_append]
  apply or_congr
  · simp
  · cases key.decoration <;> simp

theorem mem_collected_ofParts (kind : QueryKind) (parts : List (KeyPart QueryKey))
    (number : UInt32) :
    number ∈ collected named (ofParts kind parts) ↔
      ∃ part ∈ parts, number ∈ named (part.map (collected named)) := by
  rw [mem_collected]
  have reordered := parts_ofParts_perm kind parts
  constructor
  · rintro (⟨part, member, names⟩ | ⟨operand, decorating, _⟩)
    · exact ⟨part, reordered.mem_iff.1 member, names⟩
    · cases decorating
  · rintro ⟨part, member, names⟩
    exact .inl ⟨part, reordered.mem_iff.2 member, names⟩

theorem mem_collected_decorated (kind : QueryKind) (base decoration : QueryKey)
    (number : UInt32) :
    number ∈ collected named (decorated kind base decoration) ↔
      number ∈ named (.operand (collected named base)) ∨
        number ∈ collected named decoration := by
  rw [mem_collected]
  simp [decorated, parts, QueryKey.decoration, KeyPart.map]

end Affecting

@[simp]
theorem mem_affectingTypes_ofParts {typeId : TypeId} {kind : QueryKind}
    {parts : List (KeyPart QueryKey)} :
    typeId ∈ (ofParts kind parts).affectingTypes ↔
      ∃ part ∈ parts, typeId ∈ partTypes (part.map affectingTypes) :=
  mem_collected_ofParts partTypes kind parts typeId

@[simp]
theorem mem_affectingLinks_ofParts {linkId : LinkId} {kind : QueryKind}
    {parts : List (KeyPart QueryKey)} :
    linkId ∈ (ofParts kind parts).affectingLinks ↔
      ∃ part ∈ parts, linkId ∈ partLinks (part.map affectingLinks) :=
  mem_collected_ofParts partLinks kind parts linkId

@[simp]
theorem mem_affectingTypes_decorated {typeId : TypeId} {kind : QueryKind}
    {base decoration : QueryKey} :
    typeId ∈ (decorated kind base decoration).affectingTypes ↔
      typeId ∈ base.affectingTypes ∨ typeId ∈ decoration.affectingTypes :=
  mem_collected_decorated partTypes kind base decoration typeId

@[simp]
theorem mem_affectingLinks_decorated {linkId : LinkId} {kind : QueryKind}
    {base decoration : QueryKey} :
    linkId ∈ (decorated kind base decoration).affectingLinks ↔
      linkId ∈ base.affectingLinks ∨ linkId ∈ decoration.affectingLinks :=
  mem_collected_decorated partLinks kind base decoration linkId

theorem matchesType_iff {key : QueryKey} {typeId : TypeId} :
    key.matchesType typeId = true ↔ typeId ∈ key.affectingTypes := by
  simp [matchesType]

theorem matchesLink_iff {key : QueryKey} {typeId : TypeId} {linkId : LinkId} :
    key.matchesLink typeId linkId = true ↔
      linkId ∈ key.affectingLinks ∧ typeId ∈ key.affectingTypes := by
  simp [matchesLink]

end QueryKey

/-! ## Reactions -/

namespace Reaction

theorem ofAny_perm (found : Reaction) {left right : List Reaction} (reordered : left.Perm right) :
    ofAny found left = ofAny found right := by
  simp only [ofAny, List.contains_iff_mem, reordered.mem_iff]

theorem ofAllInserting_perm {left right : List Reaction} (reordered : left.Perm right) :
    ofAllInserting left = ofAllInserting right := by
  have sameEnds : left = [] ↔ right = [] := by
    rw [← List.length_eq_zero_iff, reordered.length_eq, List.length_eq_zero_iff]
  simp only [ofAllInserting, List.contains_iff_mem, reordered.mem_iff, ne_eq, sameEnds,
    List.all_eq_true]

end Reaction

namespace QueryKey

theorem addedStep_perm (kind : QueryKind) {left right : List Reaction}
    (reordered : left.Perm right) : addedStep kind left = addedStep kind right := by
  cases kind with
  | union => exact Reaction.ofAny_perm .insert reordered
  | intersect => exact Reaction.ofAllInserting_perm reordered
  | empty | allEntities | entitiesWithLink | filterLinks => rfl

theorem deletedStep_perm (kind : QueryKind) {left right : List Reaction}
    (reordered : left.Perm right) : deletedStep kind left = deletedStep kind right := by
  cases kind with
  | union | intersect => exact Reaction.ofAny_perm .remove reordered
  | empty | allEntities | entitiesWithLink | filterLinks => rfl

variable (id : EntityId)

theorem addedReaction_eq (key : QueryKey) :
    key.addedReaction id =
      if id.typeId ∈ key.affectingTypes then
        addedStep key.kind (key.operands.map (addedReaction id))
      else
        .ignore := by
  rw [addedReaction, recurse_eq, operandValues_map]
  simp only [matchesType_iff]
  rfl

theorem deletedReaction_eq (key : QueryKey) :
    key.deletedReaction id =
      if id.typeId ∈ key.affectingTypes then
        deletedStep key.kind (key.operands.map (deletedReaction id))
      else
        .ignore := by
  rw [deletedReaction, recurse_eq, operandValues_map]
  simp only [matchesType_iff]
  rfl

/-- The stored order of operands does not matter for a reaction. -/
theorem addedReaction_ofParts (kind : QueryKind) (parts : List (KeyPart QueryKey)) :
    (ofParts kind parts).addedReaction id =
      if id.typeId ∈ (ofParts kind parts).affectingTypes then
        addedStep kind ((parts.filterMap KeyPart.operand?).map (addedReaction id))
      else
        .ignore := by
  have reordered := (operands_ofParts_perm kind parts).map (addedReaction id)
  rw [addedReaction_eq, addedStep_perm _ reordered]
  rfl

theorem deletedReaction_ofParts (kind : QueryKind) (parts : List (KeyPart QueryKey)) :
    (ofParts kind parts).deletedReaction id =
      if id.typeId ∈ (ofParts kind parts).affectingTypes then
        deletedStep kind ((parts.filterMap KeyPart.operand?).map (deletedReaction id))
      else
        .ignore := by
  have reordered := (operands_ofParts_perm kind parts).map (deletedReaction id)
  rw [deletedReaction_eq, deletedStep_perm _ reordered]
  rfl

theorem addedReaction_of_notMem {id : EntityId} {key : QueryKey}
    (unaffected : id.typeId ∉ key.affectingTypes) : key.addedReaction id = .ignore := by
  rw [addedReaction_eq, if_neg unaffected]

theorem deletedReaction_of_notMem {id : EntityId} {key : QueryKey}
    (unaffected : id.typeId ∉ key.affectingTypes) : key.deletedReaction id = .ignore := by
  rw [deletedReaction_eq, if_neg unaffected]

theorem mem_affectingTypes_pair {typeId : TypeId} {kind : QueryKind} {left right : QueryKey} :
    typeId ∈ (ofParts kind [.operand left, .operand right]).affectingTypes ↔
      typeId ∈ left.affectingTypes ∨ typeId ∈ right.affectingTypes := by
  simp [KeyPart.map, partTypes]

theorem mem_affectingLinks_pair {linkId : LinkId} {kind : QueryKind} {left right : QueryKey} :
    linkId ∈ (ofParts kind [.operand left, .operand right]).affectingLinks ↔
      linkId ∈ left.affectingLinks ∨ linkId ∈ right.affectingLinks := by
  simp [KeyPart.map, partLinks]

/-- Where two ignoring operands are ignored, the types need not be asked again. -/
theorem addedReaction_pair {kind : QueryKind} (still : addedStep kind [.ignore, .ignore] = .ignore)
    (left right : QueryKey) :
    (ofParts kind [.operand left, .operand right]).addedReaction id =
      addedStep kind [left.addedReaction id, right.addedReaction id] := by
  rw [addedReaction_ofParts]
  split
  · rfl
  · rename_i unaffected
    obtain ⟨leftUnaffected, rightUnaffected⟩ := not_or.1 (mt mem_affectingTypes_pair.2 unaffected)
    rw [addedReaction_of_notMem leftUnaffected, addedReaction_of_notMem rightUnaffected, still]

theorem deletedReaction_pair {kind : QueryKind}
    (still : deletedStep kind [.ignore, .ignore] = .ignore) (left right : QueryKey) :
    (ofParts kind [.operand left, .operand right]).deletedReaction id =
      deletedStep kind [left.deletedReaction id, right.deletedReaction id] := by
  rw [deletedReaction_ofParts]
  split
  · rfl
  · rename_i unaffected
    obtain ⟨leftUnaffected, rightUnaffected⟩ := not_or.1 (mt mem_affectingTypes_pair.2 unaffected)
    rw [deletedReaction_of_notMem leftUnaffected, deletedReaction_of_notMem rightUnaffected, still]

theorem linkReaction_eq_ignore_iff {typeId : TypeId} {linkId : LinkId} {key : QueryKey} :
    key.linkReaction typeId linkId = .ignore ↔
      ¬ (linkId ∈ key.affectingLinks ∧ typeId ∈ key.affectingTypes) := by
  rw [← matchesLink_iff, linkReaction]
  split <;> simp_all

end QueryKey

namespace Selection

variable (id : EntityId) (typeId : TypeId) (linkId : LinkId) (left right target : Selection)

theorem addedReaction_ofType :
    (ofType typeId).key.addedReaction id = if id.typeId = typeId then .insert else .ignore := by
  rw [key, QueryKey.addedReaction_ofParts]
  simp [KeyPart.map, QueryKey.partTypes, QueryKey.addedStep]

theorem addedReaction_withLink :
    (withLink typeId linkId).key.addedReaction id = .ignore := by
  rw [key, withLinkKey, QueryKey.addedReaction_ofParts]
  simp [QueryKey.addedStep]

theorem addedReaction_linkedTo :
    (linkedTo typeId linkId target).key.addedReaction id =
      if id.typeId = typeId ∨ id.typeId ∈ target.key.affectingTypes then .invalidate
      else .ignore := by
  rw [QueryKey.addedReaction_eq]
  simp [key, withLinkKey, KeyPart.map, QueryKey.partTypes]
  rfl

theorem addedReaction_union :
    (union left right).key.addedReaction id =
      .ofAny .insert [left.key.addedReaction id, right.key.addedReaction id] :=
  QueryKey.addedReaction_pair id rfl left.key right.key

theorem addedReaction_inter :
    (inter left right).key.addedReaction id =
      .ofAllInserting [left.key.addedReaction id, right.key.addedReaction id] :=
  QueryKey.addedReaction_pair id rfl left.key right.key

theorem deletedReaction_ofType :
    (ofType typeId).key.deletedReaction id = if id.typeId = typeId then .remove else .ignore := by
  rw [key, QueryKey.deletedReaction_ofParts]
  simp [KeyPart.map, QueryKey.partTypes, QueryKey.deletedStep]

theorem deletedReaction_withLink :
    (withLink typeId linkId).key.deletedReaction id =
      if id.typeId = typeId then .remove else .ignore := by
  rw [key, withLinkKey, QueryKey.deletedReaction_ofParts]
  simp [KeyPart.map, QueryKey.partTypes, QueryKey.deletedStep]

theorem deletedReaction_linkedTo :
    (linkedTo typeId linkId target).key.deletedReaction id =
      if id.typeId = typeId ∨ id.typeId ∈ target.key.affectingTypes then .invalidate
      else .ignore := by
  rw [QueryKey.deletedReaction_eq]
  simp [key, withLinkKey, KeyPart.map, QueryKey.partTypes]
  rfl

theorem deletedReaction_union :
    (union left right).key.deletedReaction id =
      .ofAny .remove [left.key.deletedReaction id, right.key.deletedReaction id] :=
  QueryKey.deletedReaction_pair id rfl left.key right.key

theorem deletedReaction_inter :
    (inter left right).key.deletedReaction id =
      .ofAny .remove [left.key.deletedReaction id, right.key.deletedReaction id] :=
  QueryKey.deletedReaction_pair id rfl left.key right.key

end Selection

end EntityQuery
