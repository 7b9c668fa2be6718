import EntityQuery.Hash.Framing
import EntityQuery.Hash.Route
import EntityQuery.Query.Kind

/-!
# Query keys

A key is the structural identity of a query: its kind, an ordered list of parts (entity types, links
and the keys of operands) and possibly a decorating key.  Results are cached under their key, and
the key decides which changes of the store can touch them.

Everything that is computed from a key follows one recursion, `QueryKey.recurse`: the value of a
node is computed from the node itself and the values of its operands.  The equation
`QueryKey.recurse_eq` states it.
-/

namespace EntityQuery

/-- One part of a key, over the keys (or the values computed from the keys) of operands. -/
inductive KeyPart (κ : Type) where
  | entityType (typeId : TypeId)
  | link (linkId : LinkId)
  | operand (key : κ)
deriving DecidableEq, Repr

namespace KeyPart

variable {κ α : Type}

/-- Replace an operand by a value computed from it. -/
def map (value : κ → α) : KeyPart κ → KeyPart α
  | .entityType typeId => .entityType typeId
  | .link linkId => .link linkId
  | .operand key => .operand (value key)

def operand? : KeyPart κ → Option κ
  | .operand key => some key
  | _ => none

/-- The place of a part's form among the forms: types, then links, then operands. -/
def rank : KeyPart κ → Nat
  | .entityType _ => 0
  | .link _ => 1
  | .operand _ => 2

end KeyPart

inductive QueryKey where
  | node (kind : QueryKind) (parts : List (KeyPart QueryKey)) (decoration : Option QueryKey)

namespace QueryKey

def kind : QueryKey → QueryKind
  | .node kind _ _ => kind

/-- The parts, in their stored order. -/
def parts : QueryKey → List (KeyPart QueryKey)
  | .node _ parts _ => parts

def decoration : QueryKey → Option QueryKey
  | .node _ _ decoration => decoration

/-! ## Equality -/

mutual

/-- Two keys are equal if their kinds, parts and decorations are. -/
def decideEq : (left right : QueryKey) → Decidable (left = right)
  | .node leftKind leftParts leftDecoration, .node rightKind rightParts rightDecoration =>
      if sameKind : leftKind = rightKind then
        match decidePartsEq leftParts rightParts with
        | .isTrue sameParts =>
            match decideDecorationEq leftDecoration rightDecoration with
            | .isTrue sameDecoration => .isTrue (by rw [sameKind, sameParts, sameDecoration])
            | .isFalse different => .isFalse (by
                intro same
                injection same with _ _ sameDecoration
                exact different sameDecoration)
        | .isFalse different => .isFalse (by
            intro same
            injection same with _ sameParts _
            exact different sameParts)
      else
        .isFalse (by
          intro same
          injection same with sameKind' _ _
          exact sameKind sameKind')

/-- Equality of part lists, position by position. -/
def decidePartsEq :
    (left right : List (KeyPart QueryKey)) → Decidable (left = right)
  | [], [] => .isTrue rfl
  | [], _ :: _ => .isFalse (by simp)
  | _ :: _, [] => .isFalse (by simp)
  | leftPart :: leftRest, rightPart :: rightRest =>
      match decidePartEq leftPart rightPart with
      | .isTrue samePart =>
          match decidePartsEq leftRest rightRest with
          | .isTrue sameRest => .isTrue (by rw [samePart, sameRest])
          | .isFalse different => .isFalse (by simp [different])
      | .isFalse different => .isFalse (by simp [different])

def decidePartEq : (left right : KeyPart QueryKey) → Decidable (left = right)
  | .entityType leftId, .entityType rightId =>
      if same : leftId = rightId then .isTrue (by rw [same]) else .isFalse (by simp [same])
  | .link leftId, .link rightId =>
      if same : leftId = rightId then .isTrue (by rw [same]) else .isFalse (by simp [same])
  | .operand leftKey, .operand rightKey =>
      match decideEq leftKey rightKey with
      | .isTrue same => .isTrue (by rw [same])
      | .isFalse different => .isFalse (by simp [different])
  | .entityType _, .link _ => .isFalse (by simp)
  | .entityType _, .operand _ => .isFalse (by simp)
  | .link _, .entityType _ => .isFalse (by simp)
  | .link _, .operand _ => .isFalse (by simp)
  | .operand _, .entityType _ => .isFalse (by simp)
  | .operand _, .link _ => .isFalse (by simp)

def decideDecorationEq : (left right : Option QueryKey) → Decidable (left = right)
  | none, none => .isTrue rfl
  | none, some _ => .isFalse (by simp)
  | some _, none => .isFalse (by simp)
  | some leftKey, some rightKey =>
      match decideEq leftKey rightKey with
      | .isTrue same => .isTrue (by rw [same])
      | .isFalse different => .isFalse (by simp [different])

end

instance : DecidableEq QueryKey := decideEq

/-! ## Recursion over operands -/

section Recursion

variable {α : Type}

mutual

/-- The value of a node, computed from the node and the values of its operands. -/
def recurse (step : QueryKey → List (KeyPart α) → Option α → α) : QueryKey → α
  | .node kind parts decoration =>
      step (.node kind parts decoration) (recurseParts step parts)
        (recurseDecoration step decoration)

/-- The parts with each operand replaced by its value. -/
def recurseParts (step : QueryKey → List (KeyPart α) → Option α → α) :
    List (KeyPart QueryKey) → List (KeyPart α)
  | [] => []
  | .entityType typeId :: rest => .entityType typeId :: recurseParts step rest
  | .link linkId :: rest => .link linkId :: recurseParts step rest
  | .operand key :: rest => .operand (recurse step key) :: recurseParts step rest

def recurseDecoration (step : QueryKey → List (KeyPart α) → Option α → α) :
    Option QueryKey → Option α
  | none => none
  | some key => some (recurse step key)

end

theorem recurseParts_eq_map (step : QueryKey → List (KeyPart α) → Option α → α)
    (parts : List (KeyPart QueryKey)) :
    recurseParts step parts = parts.map (KeyPart.map (recurse step)) := by
  induction parts with
  | nil => simp [recurseParts]
  | cons head rest inductionHypothesis =>
      cases head <;> simp [recurseParts, KeyPart.map, inductionHypothesis]

/-- The value of a key is one step from the values of its operands. -/
theorem recurse_eq (step : QueryKey → List (KeyPart α) → Option α → α) (key : QueryKey) :
    key.recurse step =
      step key (key.parts.map (KeyPart.map (recurse step)))
        (key.decoration.map (recurse step)) := by
  cases key with
  | node kind keyParts keyDecoration =>
      simp only [recurse, recurseParts_eq_map, parts, decoration]
      cases keyDecoration <;> simp [recurseDecoration]

end Recursion

/-- The values of the operands, the decoration's last. -/
def operandValues {α : Type} (parts : List (KeyPart α)) (decoration : Option α) : List α :=
  parts.filterMap KeyPart.operand? ++ decoration.toList

/-- The keys of the operands, the decoration last. -/
def operands (key : QueryKey) : List QueryKey :=
  operandValues key.parts key.decoration

/-! ## Hash -/

/-- The framed writes of one part, where an operand is given by its hash. -/
def partWrites : KeyPart UInt64 → List HashWrite
  | .entityType typeId => [.tag 1, .word32 typeId]
  | .link linkId => [.tag 2, .word32 linkId]
  | .operand hash => [.tag 3, .word64 hash]

/-- The framed writes of one node, where operands are given by their hashes. -/
def nodeWrites (kind : QueryKind) (parts : List (KeyPart UInt64)) (decoration : Option UInt64) :
    List HashWrite :=
  .tag kind.tag :: .word32 (min parts.length (UInt32.size - 1)).toUInt32
    :: parts.flatMap partWrites
    ++ (match decoration with
      | none => []
      | some hash => [.delimiter, .word64 hash])

/-- The structural hash, the same in every run and on every machine. -/
def stableHash : QueryKey → UInt64 :=
  recurse fun key parts decoration => HashWrite.digest (nodeWrites key.kind parts decoration)

def hashWrites (key : QueryKey) : List HashWrite :=
  nodeWrites key.kind (key.parts.map (KeyPart.map stableHash)) (key.decoration.map stableHash)

theorem stableHash_eq (key : QueryKey) : key.stableHash = HashWrite.digest key.hashWrites :=
  recurse_eq _ key

/-- Keys are routed by their structural hash. -/
instance : Routed QueryKey := ⟨fun key => Bytes.littleEndian64 key.stableHash⟩

/-! ## Canonical text -/

/-- The text of a number among the parts; operands have none of their own. -/
def partText {α : Type} : KeyPart α → String
  | .entityType typeId => ":" ++ toString typeId.toNat
  | .link linkId => ":l" ++ toString linkId.toNat
  | .operand _ => ""

/-- The texts of the operands in brackets, or nothing where there are none. -/
def operandsText : List String → String
  | [] => ""
  | texts => "(" ++ ",".intercalate texts ++ ")"

/-- The text of the decoration behind a hyphen, or nothing where there is none. -/
def decorationText : Option String → String
  | none => ""
  | some text => "-" ++ text

/-- The text of one node: label, numbers, operands and decoration. -/
def nodeText (kind : QueryKind) (parts : List (KeyPart String)) (decoration : Option String) :
    String :=
  kind.label ++ String.join (parts.map partText)
    ++ operandsText (parts.filterMap KeyPart.operand?) ++ decorationText decoration

def canonical : QueryKey → String :=
  recurse fun key parts decoration => nodeText key.kind parts decoration

def debugText (key : QueryKey) : String :=
  "IterableHandle(\"" ++ key.canonical ++ "\")"

/-! ## Building keys -/

/-- Types by number, then links by number, then operands by canonical text. -/
def partLe : KeyPart QueryKey → KeyPart QueryKey → Bool
  | .entityType left, .entityType right => left ≤ right
  | .link left, .link right => left ≤ right
  | .operand left, .operand right => left.canonical ≤ right.canonical
  | left, right => left.rank ≤ right.rank

/-- The key of a kind and parts; the parts of a commutative kind are put in order. -/
def ofParts (kind : QueryKind) (parts : List (KeyPart QueryKey)) : QueryKey :=
  .node kind (if kind.isCommutative then parts.mergeSort partLe else parts) none

/-- The key that decorates a base with a further key. -/
def decorated (kind : QueryKind) (base decoration : QueryKey) : QueryKey :=
  .node kind [.operand base] (some decoration)

/-! ## What a key depends on -/

/-- Insert into an ascending list of numbers, keeping one copy of each. -/
def insertNumber (number : UInt32) : List UInt32 → List UInt32
  | [] => [number]
  | head :: rest =>
      if number < head then number :: head :: rest
      else if number = head then head :: rest
      else head :: insertNumber number rest

/-- The numbers of a list in ascending order, each once. -/
def ascending (numbers : List UInt32) : List UInt32 :=
  numbers.foldr insertNumber []

/-- The types that one part names, where an operand is given by its own. -/
def partTypes : KeyPart (List TypeId) → List TypeId
  | .entityType typeId => [typeId]
  | .link _ => []
  | .operand typeIds => typeIds

/-- The links that one part names, where an operand is given by its own. -/
def partLinks : KeyPart (List LinkId) → List LinkId
  | .entityType _ => []
  | .link linkId => [linkId]
  | .operand linkIds => linkIds

/-- The types whose entities can change the result, ascending. -/
def affectingTypes : QueryKey → List TypeId :=
  recurse fun _ parts decoration => ascending (parts.flatMap partTypes ++ decoration.getD [])

/-- The links whose changes can change the result, ascending. -/
def affectingLinks : QueryKey → List LinkId :=
  recurse fun _ parts decoration => ascending (parts.flatMap partLinks ++ decoration.getD [])

/-- Whether the key depends on entities of this type. -/
def matchesType (key : QueryKey) (typeId : TypeId) : Bool :=
  key.affectingTypes.contains typeId

/-- Whether the key depends on this link of this type. -/
def matchesLink (key : QueryKey) (typeId : TypeId) (linkId : LinkId) : Bool :=
  key.affectingLinks.contains linkId && key.affectingTypes.contains typeId

end QueryKey

end EntityQuery
