import EntityQuery.Query.Key

/-!
# Comparing keys

Keys are compared often and rarely have the same hash, so a comparison looks at the hashes and the
kinds first, and then at the parts and the decorations.  It finds the keys equal exactly if they
are, at all depths.
-/

namespace EntityQuery

namespace QueryKey

mutual

/-- Whether a comparison finds two keys equal. -/
def compares : QueryKey → QueryKey → Bool
  | .node kind parts decoration, .node otherKind otherParts otherDecoration =>
      (node kind parts decoration).stableHash ==
          (node otherKind otherParts otherDecoration).stableHash
        && kind == otherKind
        && comparesParts parts otherParts
        && comparesDecoration decoration otherDecoration

def comparesParts : List (KeyPart QueryKey) → List (KeyPart QueryKey) → Bool
  | [], [] => true
  | part :: rest, otherPart :: otherRest =>
      comparesPart part otherPart && comparesParts rest otherRest
  | _, _ => false

def comparesPart : KeyPart QueryKey → KeyPart QueryKey → Bool
  | .entityType typeId, .entityType otherType => typeId == otherType
  | .link linkId, .link otherLink => linkId == otherLink
  | .operand key, .operand otherKey => compares key otherKey
  | _, _ => false

def comparesDecoration : Option QueryKey → Option QueryKey → Bool
  | none, none => true
  | some key, some otherKey => compares key otherKey
  | _, _ => false

end

mutual

theorem compares_iff_eq : (left right : QueryKey) → (left.compares right = true ↔ left = right)
  | .node kind parts decoration, .node otherKind otherParts otherDecoration => by
      have sameParts := comparesParts_iff_eq parts otherParts
      have sameDecoration := comparesDecoration_iff_eq decoration otherDecoration
      rw [compares, node.injEq, Bool.and_eq_true, Bool.and_eq_true, Bool.and_eq_true, sameParts,
        sameDecoration, beq_iff_eq, beq_iff_eq]
      constructor
      · rintro ⟨⟨⟨_, kinds⟩, parts⟩, decorations⟩
        exact ⟨kinds, parts, decorations⟩
      · -- Equal keys have equal hashes, so the hashes decide nothing by themselves.
        rintro ⟨rfl, rfl, rfl⟩
        exact ⟨⟨⟨rfl, rfl⟩, rfl⟩, rfl⟩

theorem comparesParts_iff_eq :
    (left right : List (KeyPart QueryKey)) → (comparesParts left right = true ↔ left = right)
  | [], [] => by simp [comparesParts]
  | [], _ :: _ => by simp [comparesParts]
  | _ :: _, [] => by simp [comparesParts]
  | part :: rest, otherPart :: otherRest => by
      rw [comparesParts, Bool.and_eq_true, comparesPart_iff_eq part otherPart,
        comparesParts_iff_eq rest otherRest, List.cons.injEq]

theorem comparesPart_iff_eq :
    (left right : KeyPart QueryKey) → (comparesPart left right = true ↔ left = right)
  | .operand key, .operand otherKey => by
      rw [comparesPart, compares_iff_eq key otherKey, KeyPart.operand.injEq]
  | .entityType _, .entityType _ | .link _, .link _ => by simp [comparesPart]
  | .entityType _, .link _ | .entityType _, .operand _ => by simp [comparesPart]
  | .link _, .entityType _ | .link _, .operand _ => by simp [comparesPart]
  | .operand _, .entityType _ | .operand _, .link _ => by simp [comparesPart]

theorem comparesDecoration_iff_eq :
    (left right : Option QueryKey) → (comparesDecoration left right = true ↔ left = right)
  | none, none => by simp [comparesDecoration]
  | none, some _ => by simp [comparesDecoration]
  | some _, none => by simp [comparesDecoration]
  | some key, some otherKey => by
      rw [comparesDecoration, compares_iff_eq key otherKey, Option.some.injEq]

end

end QueryKey

end EntityQuery
