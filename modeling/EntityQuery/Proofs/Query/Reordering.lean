import EntityQuery.Proofs.Query.Canonical

/-!
# Keys whatever the order

The key of a commutative kind does not depend on the order in which its parts are given.  The parts
are stored in the order of types, links and operands, and the operands in the order of their texts.
Any two parts can be compared in this order, and only equal ones are level: the operands are keys of
queries, and these are told apart by their texts.  A list has one arrangement in such an order.

The constructors of unions and intersections give two operands, so operands may be exchanged at any
depth of a tree of constructors.  The short circuits of the constructors leave operands out, but the
key of what they build still depends on nothing but the keys of the operands.
-/

namespace EntityQuery

namespace QueryKey

/-! ## The order of parts -/

theorem partLe_total (left right : KeyPart QueryKey) :
    (partLe left right || partLe right left) = true := by
  rw [Bool.or_eq_true]
  cases left with
  | entityType leftType =>
      cases right with
      | entityType rightType => simpa [partLe] using UInt32.le_total leftType rightType
      | link | operand => exact .inl rfl
  | link leftLink =>
      cases right with
      | entityType => exact .inr rfl
      | link rightLink => simpa [partLe] using UInt32.le_total leftLink rightLink
      | operand => exact .inl rfl
  | operand leftKey =>
      cases right with
      | entityType | link => exact .inr rfl
      | operand rightKey =>
          simpa [partLe] using String.le_total leftKey.canonical rightKey.canonical

theorem rank_le_of_partLe {left right : KeyPart QueryKey} (before : partLe left right = true) :
    left.rank ≤ right.rank := by
  cases left <;> cases right <;> first | exact Nat.le_refl _ | exact of_decide_eq_true before

theorem partLe_trans (first second third : KeyPart QueryKey)
    (firstLe : partLe first second = true) (secondLe : partLe second third = true) :
    partLe first third = true := by
  have firstRank := rank_le_of_partLe firstLe
  have secondRank := rank_le_of_partLe secondLe
  cases first <;> cases second <;> cases third
  case entityType.entityType.entityType =>
    exact decide_eq_true (UInt32.le_trans (of_decide_eq_true firstLe) (of_decide_eq_true secondLe))
  case link.link.link =>
    exact decide_eq_true (UInt32.le_trans (of_decide_eq_true firstLe) (of_decide_eq_true secondLe))
  case operand.operand.operand =>
    exact decide_eq_true (String.le_trans (of_decide_eq_true firstLe) (of_decide_eq_true secondLe))
  all_goals
    -- Parts of different forms are put in the order of their ranks.
    simp only [KeyPart.rank] at firstRank secondRank
    first | rfl | omega

/-- Parts of which neither belongs before the other are equal, if their operands are regular. -/
theorem eq_of_partLe {left right : KeyPart QueryKey}
    (regular : ∀ key ∈ left.operand?, key.Regular)
    (otherRegular : ∀ key ∈ right.operand?, key.Regular) (leftLe : partLe left right = true)
    (rightLe : partLe right left = true) : left = right := by
  have leftRank := rank_le_of_partLe leftLe
  have rightRank := rank_le_of_partLe rightLe
  cases left <;> cases right
  case entityType.entityType =>
    rw [UInt32.le_antisymm (of_decide_eq_true leftLe) (of_decide_eq_true rightLe)]
  case link.link =>
    rw [UInt32.le_antisymm (of_decide_eq_true leftLe) (of_decide_eq_true rightLe)]
  case operand.operand leftKey rightKey =>
    have sameText : leftKey.canonical = rightKey.canonical :=
      String.le_antisymm (of_decide_eq_true leftLe) (of_decide_eq_true rightLe)
    rw [(regular leftKey rfl).eq_of_canonical_eq (otherRegular rightKey rfl) sameText]
  all_goals
    simp only [KeyPart.rank] at leftRank rightRank
    omega

/-- The key of a commutative kind does not depend on the order of its parts. -/
theorem ofParts_eq_of_perm {kind : QueryKind} (commutes : kind.isCommutative = true)
    {parts others : List (KeyPart QueryKey)} (reordered : parts.Perm others)
    (regular : ∀ part ∈ parts, ∀ key ∈ part.operand?, key.Regular) :
    ofParts kind parts = ofParts kind others := by
  have sorted (given : List (KeyPart QueryKey)) :
      (given.mergeSort partLe).Pairwise fun first second => partLe first second = true :=
    List.pairwise_mergeSort partLe_trans partLe_total given
  have alike : (parts.mergeSort partLe).Perm (others.mergeSort partLe) :=
    (List.mergeSort_perm parts partLe).trans
      (reordered.trans (List.mergeSort_perm others partLe).symm)
  have stored : parts.mergeSort partLe = others.mergeSort partLe := by
    refine alike.eq_of_pairwise ?_ (sorted parts) (sorted others)
    intro first second firstStored secondStored firstLe secondLe
    have firstGiven : first ∈ parts := (List.mergeSort_perm parts partLe).mem_iff.1 firstStored
    have secondGiven : second ∈ parts :=
      reordered.mem_iff.2 ((List.mergeSort_perm others partLe).mem_iff.1 secondStored)
    exact eq_of_partLe (regular first firstGiven) (regular second secondGiven) firstLe secondLe
  rw [ofParts, ofParts, if_pos commutes, if_pos commutes, stored]

/-- Two keys that a comparison finds equal and that have one hash and one canonical text. -/
structure Alike (left right : QueryKey) : Prop where
  compares : left.compares right = true
  stableHash : left.stableHash = right.stableHash
  canonical : left.canonical = right.canonical

theorem alike_of_eq {left right : QueryKey} (same : left = right) : left.Alike right := by
  subst same
  exact ⟨(compares_iff_eq left left).2 rfl, rfl, rfl⟩

end QueryKey

/-! ## Keys of combined queries -/

namespace Query

theorem key_select_ne (selection : Selection) : (select selection).key ≠ Query.empty.key := by
  intro same
  have sameKind := congrArg QueryKey.kind same
  cases selection <;> cases sameKind

theorem key_linkedTo (typeId : TypeId) (linkId : LinkId) (target : Query) :
    (linkedTo typeId linkId target).key =
      if target.key = Query.empty.key then Query.empty.key
      else .decorated .filterLinks (Selection.withLinkKey typeId linkId) target.key := by
  cases target with
  | empty => exact (if_pos rfl).symm
  | select selection => exact (if_neg (key_select_ne selection)).symm

theorem key_union (left right : Query) :
    (left.union right).key =
      if left.key = Query.empty.key then right.key
      else if right.key = Query.empty.key then left.key
      else .ofParts .union [.operand left.key, .operand right.key] := by
  cases left with
  | empty => exact (if_pos rfl).symm
  | select leftSelection =>
      rw [if_neg (key_select_ne leftSelection)]
      cases right with
      | empty => exact (if_pos rfl).symm
      | select rightSelection => exact (if_neg (key_select_ne rightSelection)).symm

theorem key_inter (left right : Query) :
    (left.inter right).key =
      if left.key = Query.empty.key ∨ right.key = Query.empty.key then Query.empty.key
      else .ofParts .intersect [.operand left.key, .operand right.key] := by
  cases left with
  | empty => exact (if_pos (.inl rfl)).symm
  | select leftSelection =>
      cases right with
      | empty => exact (if_pos (.inr rfl)).symm
      | select rightSelection =>
          refine (if_neg ?_).symm
          exact not_or.2 ⟨key_select_ne leftSelection, key_select_ne rightSelection⟩

/-- The key of a kind and parts, where the operands are the keys of queries. -/
def keyOfParts (kind : QueryKind) (parts : List (KeyPart Query)) : QueryKey :=
  .ofParts kind (parts.map (KeyPart.map key))

theorem keyOfParts_eq_of_perm {kind : QueryKind} (commutes : kind.isCommutative = true)
    {parts others : List (KeyPart Query)} (reordered : parts.Perm others) :
    keyOfParts kind parts = keyOfParts kind others := by
  refine QueryKey.ofParts_eq_of_perm commutes (reordered.map _) ?_
  intro part given operandKey operand
  obtain ⟨queryPart, _, rfl⟩ := List.mem_map.1 given
  cases queryPart with
  | entityType | link => cases operand
  | operand query =>
      cases operand
      exact query.regular_key

theorem keyOfParts_exchanged {kind : QueryKind} (commutes : kind.isCommutative = true)
    (left right : Query) :
    keyOfParts kind [.operand left, .operand right] =
      keyOfParts kind [.operand right, .operand left] :=
  keyOfParts_eq_of_perm commutes (.swap _ _ _)

theorem key_union_comm (left right : Query) : (left.union right).key = (right.union left).key := by
  cases left with
  | empty => cases right <;> rfl
  | select leftSelection =>
      cases right with
      | empty => rfl
      | select rightSelection =>
          have commutes : QueryKind.isCommutative .union = true := rfl
          exact keyOfParts_exchanged commutes (select leftSelection) (select rightSelection)

theorem key_inter_comm (left right : Query) : (left.inter right).key = (right.inter left).key := by
  cases left with
  | empty => cases right <;> rfl
  | select leftSelection =>
      cases right with
      | empty => rfl
      | select rightSelection =>
          have commutes : QueryKind.isCommutative .intersect = true := rfl
          exact keyOfParts_exchanged commutes (select leftSelection) (select rightSelection)

end Query

/-! ## Trees of constructors -/

namespace QueryTree

/-- Trees that differ in the order of the operands of unions and intersections, at any depth. -/
inductive Rearranged : QueryTree → QueryTree → Prop
  | refl (tree : QueryTree) : Rearranged tree tree
  | trans {first second third : QueryTree} :
      Rearranged first second → Rearranged second third → Rearranged first third
  | linkedTo (typeId : TypeId) (linkId : LinkId) {target other : QueryTree} :
      Rearranged target other → Rearranged (.linkedTo typeId linkId target)
        (.linkedTo typeId linkId other)
  | union {left right otherLeft otherRight : QueryTree} :
      Rearranged left otherLeft → Rearranged right otherRight →
        Rearranged (.union left right) (.union otherLeft otherRight)
  | inter {left right otherLeft otherRight : QueryTree} :
      Rearranged left otherLeft → Rearranged right otherRight →
        Rearranged (.inter left right) (.inter otherLeft otherRight)
  | exchangedUnion (left right : QueryTree) : Rearranged (.union left right) (.union right left)
  | exchangedInter (left right : QueryTree) : Rearranged (.inter left right) (.inter right left)

/-- The key of a kind and parts, where the operands are the keys of what trees build. -/
def keyOfParts (kind : QueryKind) (parts : List (KeyPart QueryTree)) : QueryKey :=
  Query.keyOfParts kind (parts.map (KeyPart.map build))

theorem Rearranged.key_eq {left right : QueryTree} (rearranged : left.Rearranged right) :
    left.build.key = right.build.key := by
  induction rearranged with
  | refl => rfl
  | trans _ _ firstHypothesis secondHypothesis => exact firstHypothesis.trans secondHypothesis
  | linkedTo typeId linkId _ inductionHypothesis =>
      rw [build, build, Query.key_linkedTo, Query.key_linkedTo, inductionHypothesis]
  | union _ _ leftHypothesis rightHypothesis =>
      rw [build, build, Query.key_union, Query.key_union, leftHypothesis, rightHypothesis]
  | inter _ _ leftHypothesis rightHypothesis =>
      rw [build, build, Query.key_inter, Query.key_inter, leftHypothesis, rightHypothesis]
  | exchangedUnion left right => exact Query.key_union_comm left.build right.build
  | exchangedInter left right => exact Query.key_inter_comm left.build right.build

/--
The parts of the key of a union or an intersection may be given in any order, and trees whose
operands stand in another order build queries with alike keys.
-/
theorem keys_alike_whatever_order :
    (∀ (kind : QueryKind) (parts others : List (KeyPart QueryTree)),
        kind = .union ∨ kind = .intersect → parts.Perm others →
          (keyOfParts kind parts).Alike (keyOfParts kind others)) ∧
      ∀ left right : QueryTree, left.Rearranged right → left.build.key.Alike right.build.key := by
  constructor
  · intro kind parts others commutative reordered
    have commutes : kind.isCommutative = true := by
      rcases commutative with rfl | rfl <;> rfl
    exact QueryKey.alike_of_eq (Query.keyOfParts_eq_of_perm commutes (reordered.map _))
  · intro left right rearranged
    exact QueryKey.alike_of_eq rearranged.key_eq

/-- Parts of all forms in reverse, and operands exchanged below and above a link filter. -/
theorem keys_alike_reversed :
    (keyOfParts .intersect
        [.operand (ofType 2), .operand (withLink 2 8), .link 7, .entityType 5]).Alike
        (keyOfParts .intersect
          [.entityType 5, .link 7, .operand (withLink 2 8), .operand (ofType 2)]) ∧
      (union (ofType 1) (linkedTo 1 7 (inter (ofType 2) (withLink 2 8)))).build.key.Alike
        (union (linkedTo 1 7 (inter (withLink 2 8) (ofType 2))) (ofType 1)).build.key := by
  constructor
  · refine keys_alike_whatever_order.1 .intersect _ _ (.inr rfl) ?_
    exact (List.reverse_perm
      [KeyPart.operand (ofType 2), .operand (withLink 2 8), .link 7, .entityType 5]).symm
  · exact keys_alike_whatever_order.2 _ _
      (.trans (.union (.refl _) (.linkedTo 1 7 (.exchangedInter _ _))) (.exchangedUnion _ _))

end QueryTree

end EntityQuery
