import EntityQuery.Proofs.Query.Members
import EntityQuery.Query.Comparison

/-!
# Reading canonical texts

The canonical text of a query determines its key.  A text is read from the front: the label tells
the kind, a number ends where its digits end, and the operands and the decoration are texts of the
same form.  What is behind a text never starts with a digit, so the end of a number is never in
doubt, and a text and what is behind it can be told apart.

The operands of unions and intersections are stored in the order of their texts.  Reading does not
need to know this order: it gives the operands back as they are stored.
-/

namespace EntityQuery

/-! ## Labels and numbers -/

namespace QueryKind

/-- No label begins another one. -/
theorem eq_of_prefix_label {first second : QueryKind}
    (begins : first.label.toList <+: second.label.toList) : first = second := by
  cases first <;> cases second <;> first | rfl | exact absurd begins (by decide)

theorem label_append_inj {first second : QueryKind} {rest otherRest : List Char}
    (same : first.label.toList ++ rest = second.label.toList ++ otherRest) :
    first = second ∧ rest = otherRest := by
  have sameKind : first = second := by
    have begins := List.prefix_append first.label.toList rest
    rw [same] at begins
    rcases List.prefix_or_prefix_of_prefix begins (List.prefix_append _ _) with shorter | longer
    · exact eq_of_prefix_label shorter
    · exact (eq_of_prefix_label longer).symm
  subst sameKind
  exact ⟨rfl, List.append_cancel_left same⟩

end QueryKind

namespace QueryKey

/-- What may stand behind a text: it does not start with a digit. -/
def Fenced (rest : List Char) : Prop :=
  ∀ first ∈ rest.head?, first.isDigit = false

theorem fenced_nil : Fenced [] := nofun

theorem fenced_cons {first : Char} {rest : List Char} (noDigit : first.isDigit = false) :
    Fenced (first :: rest) := by
  rintro other ⟨⟩
  exact noDigit

theorem takeWhile_isDigit_of_fenced {rest : List Char} (fenced : Fenced rest) :
    rest.takeWhile Char.isDigit = [] := by
  cases rest with
  | nil => rfl
  | cons first others =>
      have noDigit := fenced first rfl
      rw [List.takeWhile_cons, noDigit]
      rfl

/-- A number can be read off the text that it starts. -/
theorem digits_append_inj {number other : UInt32} {rest otherRest : List Char}
    (fenced : Fenced rest) (otherFenced : Fenced otherRest)
    (same : Nat.toDigits 10 number.toNat ++ rest = Nat.toDigits 10 other.toNat ++ otherRest) :
    number = other ∧ rest = otherRest := by
  have leading (value : Nat) {behind : List Char} (ends : Fenced behind) :
      (Nat.toDigits 10 value ++ behind).takeWhile Char.isDigit = Nat.toDigits 10 value := by
    rw [List.takeWhile_append_of_pos fun _ digit =>
      Nat.isDigit_of_mem_toDigits (by decide) (by decide) digit, takeWhile_isDigit_of_fenced ends,
      List.append_nil]
  have sameDigits : Nat.toDigits 10 number.toNat = Nat.toDigits 10 other.toNat := by
    rw [← leading number.toNat fenced, same, leading other.toNat otherFenced]
  have sameNumber : number.toNat = other.toNat := by
    rw [← Nat.ofDigitChars_ten_toDigits (n := number.toNat), sameDigits,
      Nat.ofDigitChars_ten_toDigits]
  rw [sameDigits] at same
  exact ⟨UInt32.toNat_inj.1 sameNumber, List.append_cancel_left same⟩

/-! ## Keys of queries -/

theorem canonical_eq (key : QueryKey) :
    key.canonical =
      nodeText key.kind (key.parts.map (KeyPart.map canonical)) (key.decoration.map canonical) :=
  recurse_eq _ key

/-- The keys of queries, with the operands of a commutative kind in either order. -/
inductive Regular : QueryKey → Prop
  | empty : Regular (.node .empty [] none)
  | ofType (typeId : TypeId) : Regular (.node .allEntities [.entityType typeId] none)
  | withLink (typeId : TypeId) (linkId : LinkId) :
      Regular (.node .entitiesWithLink [.entityType typeId, .link linkId] none)
  | linkedTo (typeId : TypeId) (linkId : LinkId) {target : QueryKey} :
      Regular target →
        Regular (.decorated .filterLinks
          (.node .entitiesWithLink [.entityType typeId, .link linkId] none) target)
  | pair {kind : QueryKind} {first second : QueryKey} :
      kind.isCommutative = true → Regular first → Regular second →
        Regular (.node kind [.operand first, .operand second] none)

section Texts

variable (typeId : TypeId) (linkId : LinkId) (kind : QueryKind) (first second target : QueryKey)
  (rest : List Char)

/-- A text starts with the label of its kind. -/
theorem toList_canonical (key : QueryKey) :
    key.canonical.toList =
      key.kind.label.toList
        ++ ((key.parts.map (KeyPart.map canonical)).flatMap (String.toList ∘ partText)
          ++ ((operandsText ((key.parts.map (KeyPart.map canonical)).filterMap
              KeyPart.operand?)).toList
            ++ (decorationText (key.decoration.map canonical)).toList)) := by
  rw [canonical_eq]
  simp only [nodeText, String.toList_append, String.toList_join, List.flatMap_map,
    List.append_assoc]
  rfl

theorem canonical_append_ofType :
    (node .allEntities [.entityType typeId] none).canonical.toList ++ rest =
      QueryKind.allEntities.label.toList ++ ':' :: (Nat.toDigits 10 typeId.toNat ++ rest) := by
  rw [toList_canonical]
  simp [QueryKey.kind, parts, decoration, List.filterMap_cons, operandsText, decorationText,
    partText, KeyPart.map, KeyPart.operand?]

theorem canonical_append_withLink :
    (node .entitiesWithLink [.entityType typeId, .link linkId] none).canonical.toList ++ rest =
      QueryKind.entitiesWithLink.label.toList ++ ':' :: (Nat.toDigits 10 typeId.toNat
        ++ ':' :: 'l' :: (Nat.toDigits 10 linkId.toNat ++ rest)) := by
  rw [toList_canonical]
  simp [QueryKey.kind, parts, decoration, List.filterMap_cons, operandsText, decorationText,
    partText, KeyPart.map, KeyPart.operand?]

theorem canonical_append_decorated :
    (decorated kind first target).canonical.toList ++ rest =
      kind.label.toList ++ '(' :: (first.canonical.toList
        ++ ')' :: '-' :: (target.canonical.toList ++ rest)) := by
  rw [decorated, toList_canonical]
  simp [QueryKey.kind, parts, decoration, operandsText, decorationText, partText, KeyPart.map,
    KeyPart.operand?]

theorem canonical_append_pair :
    (node kind [.operand first, .operand second] none).canonical.toList ++ rest =
      kind.label.toList ++ '(' :: (first.canonical.toList
        ++ ',' :: (second.canonical.toList ++ ')' :: rest)) := by
  rw [toList_canonical]
  simp [QueryKey.kind, parts, decoration, operandsText, decorationText, partText, KeyPart.map,
    KeyPart.operand?]

end Texts

/-! ## Reading keys back -/

theorem kind_of_canonical_append {left right : QueryKey} {rest otherRest : List Char}
    (same : left.canonical.toList ++ rest = right.canonical.toList ++ otherRest) :
    left.kind = right.kind := by
  rw [toList_canonical left, toList_canonical right, List.append_assoc left.kind.label.toList,
    List.append_assoc right.kind.label.toList] at same
  exact (QueryKind.label_append_inj same).1

theorem withLink_append_inj {typeId otherType : TypeId} {linkId otherLink : LinkId}
    {rest otherRest : List Char} (fenced : Fenced rest) (otherFenced : Fenced otherRest)
    (same : (node .entitiesWithLink [.entityType typeId, .link linkId] none).canonical.toList
        ++ rest =
      (node .entitiesWithLink [.entityType otherType, .link otherLink] none).canonical.toList
        ++ otherRest) :
    typeId = otherType ∧ linkId = otherLink ∧ rest = otherRest := by
  rw [canonical_append_withLink, canonical_append_withLink] at same
  have types := List.tail_eq_of_cons_eq (List.append_cancel_left same)
  obtain ⟨sameType, behind⟩ := digits_append_inj (fenced_cons rfl) (fenced_cons rfl) types
  have links := List.tail_eq_of_cons_eq (List.tail_eq_of_cons_eq behind)
  exact ⟨sameType, digits_append_inj fenced otherFenced links⟩

/-- A text and what is behind it can be told apart, and the text determines the key. -/
theorem Regular.canonical_append_inj {left right : QueryKey} (regular : left.Regular)
    (otherRegular : right.Regular) {rest otherRest : List Char} (fenced : Fenced rest)
    (otherFenced : Fenced otherRest)
    (same : left.canonical.toList ++ rest = right.canonical.toList ++ otherRest) :
    left = right ∧ rest = otherRest := by
  have sameKind := kind_of_canonical_append same
  induction regular generalizing right rest otherRest with
  | empty =>
      cases otherRegular with
      | empty => exact ⟨rfl, List.append_cancel_left same⟩
      | pair commutes =>
          cases sameKind
          cases commutes
      | ofType | withLink | linkedTo => cases sameKind
  | ofType typeId =>
      cases otherRegular with
      | ofType otherType =>
          rw [canonical_append_ofType, canonical_append_ofType] at same
          have numbers := List.tail_eq_of_cons_eq (List.append_cancel_left same)
          obtain ⟨rfl, sameRest⟩ := digits_append_inj fenced otherFenced numbers
          exact ⟨rfl, sameRest⟩
      | pair commutes =>
          cases sameKind
          cases commutes
      | empty | withLink | linkedTo => cases sameKind
  | withLink typeId linkId =>
      cases otherRegular with
      | withLink otherType otherLink =>
          obtain ⟨rfl, rfl, sameRest⟩ := withLink_append_inj fenced otherFenced same
          exact ⟨rfl, sameRest⟩
      | pair commutes =>
          cases sameKind
          cases commutes
      | empty | ofType | linkedTo => cases sameKind
  | linkedTo typeId linkId _ inductionHypothesis =>
      cases otherRegular with
      | linkedTo otherType otherLink otherTarget =>
          rw [canonical_append_decorated, canonical_append_decorated] at same
          have bases := List.tail_eq_of_cons_eq (List.append_cancel_left same)
          obtain ⟨rfl, rfl, behind⟩ :=
            withLink_append_inj (fenced_cons rfl) (fenced_cons rfl) bases
          have targets := List.tail_eq_of_cons_eq (List.tail_eq_of_cons_eq behind)
          obtain ⟨rfl, sameRest⟩ := inductionHypothesis otherTarget fenced otherFenced targets
            (kind_of_canonical_append targets)
          exact ⟨rfl, sameRest⟩
      | pair commutes =>
          cases sameKind
          cases commutes
      | empty | ofType | withLink => cases sameKind
  | pair commutes _ _ firstHypothesis secondHypothesis =>
      cases otherRegular with
      | pair _ otherFirst otherSecond =>
          cases sameKind
          rw [canonical_append_pair, canonical_append_pair] at same
          have firsts := List.tail_eq_of_cons_eq (List.append_cancel_left same)
          obtain ⟨rfl, behind⟩ := firstHypothesis otherFirst (fenced_cons rfl) (fenced_cons rfl)
            firsts (kind_of_canonical_append firsts)
          have seconds := List.tail_eq_of_cons_eq behind
          obtain ⟨rfl, ends⟩ := secondHypothesis otherSecond (fenced_cons rfl) (fenced_cons rfl)
            seconds (kind_of_canonical_append seconds)
          exact ⟨rfl, List.tail_eq_of_cons_eq ends⟩
      | empty | ofType | withLink | linkedTo =>
          cases sameKind
          cases commutes

/-- The canonical texts of regular keys are all different. -/
theorem Regular.eq_of_canonical_eq {left right : QueryKey} (regular : left.Regular)
    (otherRegular : right.Regular) (same : left.canonical = right.canonical) : left = right := by
  refine (regular.canonical_append_inj otherRegular fenced_nil fenced_nil ?_).1
  rw [same]

/-! ## Queries -/

theorem Regular.ofOperands {kind : QueryKind} (commutes : kind.isCommutative = true)
    {first second : QueryKey} (firstRegular : first.Regular) (secondRegular : second.Regular) :
    (ofParts kind [.operand first, .operand second]).Regular := by
  rcases ofParts_pair kind first second with stored | stored
  · rw [stored]
    exact .pair commutes firstRegular secondRegular
  · rw [stored]
    exact .pair commutes secondRegular firstRegular

end QueryKey

theorem Selection.regular_key (selection : Selection) : selection.key.Regular := by
  induction selection with
  | ofType typeId => exact .ofType typeId
  | withLink typeId linkId => exact .withLink typeId linkId
  | linkedTo typeId linkId target inductionHypothesis =>
      exact .linkedTo typeId linkId inductionHypothesis
  | union left right leftHypothesis rightHypothesis =>
      exact .ofOperands rfl leftHypothesis rightHypothesis
  | inter left right leftHypothesis rightHypothesis =>
      exact .ofOperands rfl leftHypothesis rightHypothesis

theorem Query.regular_key (query : Query) : query.key.Regular := by
  cases query with
  | empty => exact .empty
  | select selection => exact selection.regular_key

/-- Trees of constructors have equal keys exactly if they have one canonical text. -/
theorem QueryTree.compares_iff_canonical_eq (left right : QueryTree) :
    left.build.key.compares right.build.key = true ↔
      left.build.key.canonical = right.build.key.canonical := by
  rw [QueryKey.compares_iff_eq]
  constructor
  · exact congrArg QueryKey.canonical
  · exact left.build.regular_key.eq_of_canonical_eq right.build.regular_key

end EntityQuery
