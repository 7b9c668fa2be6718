import EntityQuery.Query.Describe

/-!
# Descriptions that come back

A description survives being written as JSON and read again, although its empty lists are not
written: a field that is absent is read as the empty list, and a field that is present is found
whatever stands beside it.

A query survives being described and rebuilt.  Rebuilding goes through the constructors, which drop
empty operands, so a description in general is not described back as it was; but no operand of a
query is empty, so nothing is dropped from the description of a query.  What a description is
rebuilt to is therefore already the form that no further round changes.
-/

namespace EntityQuery

namespace Json

/-! ## Fields and numbers -/

theorem byte?_ofNat_toNat (value : UInt8) : (ofNat value.toNat).byte? = some value := by
  have small : value.toNat < UInt8.size := value.toNat_lt_size
  simp [byte?, natBelow?, ofNat, small]

theorem word32?_ofNat_toNat (value : UInt32) : (ofNat value.toNat).word32? = some value := by
  have small : value.toNat < UInt32.size := value.toNat_lt_size
  simp [word32?, natBelow?, ofNat, small]

@[simp]
theorem fieldIn?_nil (name : String) : fieldIn? name [] = none :=
  rfl

/-- The last field of a name wins. -/
theorem fieldIn?_cons (name : String) (field : String × Json) (rest : List (String × Json)) :
    fieldIn? name (field :: rest) =
      (fieldIn? name rest).or (if field.1 = name then some field.2 else none) := by
  rw [fieldIn?, List.reverse_cons, List.find?_append, Option.map_or]
  by_cases same : field.1 = name <;> simp [fieldIn?, same]

theorem isSome_fieldIn? (name : String) (fields : List (String × Json)) :
    (fieldIn? name fields).isSome = fields.any fun field => field.1 == name := by
  induction fields with
  | nil => rfl
  | cons field rest inductionHypothesis =>
      rw [fieldIn?_cons, Option.isSome_or, inductionHypothesis, List.any_cons, Bool.or_comm]
      by_cases same : field.1 = name <;> simp [same]

end Json

namespace Description

/-! ## Reading what was written -/

theorem mapM_word32? (params : List UInt32) :
    (params.map fun param => Json.ofNat param.toNat).mapM Json.word32? = some params := by
  induction params with
  | nil => rfl
  | cons param rest inductionHypothesis =>
      rw [List.map_cons, List.mapM_cons, Json.word32?_ofNat_toNat, inductionHypothesis]
      rfl

/-- The children are read from the field that is named for them. -/
theorem childrenField?_eq (fields : List (String × Json)) :
    childrenField? fields =
      match Json.fieldIn? "children" fields with
      | none => some []
      | some value => children? value := by
  induction fields with
  | nil => rfl
  | cons field rest inductionHypothesis =>
      obtain ⟨name, value⟩ := field
      rw [childrenField?, inductionHypothesis, Json.fieldIn?_cons, ← Json.isSome_fieldIn?]
      cases Json.fieldIn? "children" rest with
      | some later => simp
      | none => by_cases same : name = "children" <;> simp [same]

/-- The fields of a description with its lists as they are written. -/
def fields (tag : UInt8) (params children : List Json) : List (String × Json) :=
  ("tag", .ofNat tag.toNat) :: listField "params" params ++ listField "children" children

section Fields

variable (tag : UInt8) (params children : List Json)

/-- The tag is read back beside any lists. -/
theorem tag?_fields :
    (Json.fieldIn? "tag" (fields tag params children)).bind Json.byte? = some tag := by
  have found : Json.fieldIn? "tag" (fields tag params children) = some (.ofNat tag.toNat) := by
    cases params <;> cases children <;> rfl
  rw [found, Option.bind_some, Json.byte?_ofNat_toNat]

theorem fieldIn?_params :
    Json.fieldIn? "params" (fields tag params children) =
      if params = [] then none else some (.array params) := by
  cases params <;> cases children <;> rfl

theorem fieldIn?_children :
    Json.fieldIn? "children" (fields tag params children) =
      if children = [] then none else some (.array children) := by
  cases params <;> cases children <;> rfl

/-- Parameters are read back, also where there are none and their field is absent. -/
theorem paramsOr?_fields (params : List UInt32) :
    paramsOr? (Json.fieldIn? "params"
      (fields tag (params.map fun param => .ofNat param.toNat) children)) = some params := by
  rw [fieldIn?_params]
  cases params with
  | nil => rfl
  | cons param rest => exact mapM_word32? (param :: rest)

/-- Children are read from their list, also where there are none and their field is absent. -/
theorem childrenField?_fields :
    childrenField? (fields tag params children) = listOfJson? children := by
  rw [childrenField?_eq, fieldIn?_children]
  cases children <;> rfl

end Fields

theorem toJson_node (tag : UInt8) (params : List UInt32) (children : List Description) :
    (node tag params children).toJson =
      .object (fields tag (params.map fun param => .ofNat param.toNat) (listToJson children)) := by
  rw [toJson, fields]

mutual

theorem ofJson?_toJson : (description : Description) →
    ofJson? description.toJson = some description
  | .node tag params children => by
      rw [toJson_node, ofJson?, tag?_fields, paramsOr?_fields, childrenField?_fields,
        listOfJson?_listToJson children]
      rfl

theorem listOfJson?_listToJson : (descriptions : List Description) →
    listOfJson? (listToJson descriptions) = some descriptions
  | [] => rfl
  | description :: rest => by
      rw [listToJson, listOfJson?, ofJson?_toJson description, listOfJson?_listToJson rest]
      rfl

end

end Description

/-! ## Rebuilding what was described -/

theorem Selection.ofDescription_describe (selection : Selection) :
    Query.ofDescription selection.describe = .ok (.select selection) := by
  induction selection with
  | ofType typeId => rfl
  | withLink typeId linkId => rfl
  | linkedTo typeId linkId target inductionHypothesis =>
      rw [describe, Query.ofDescription, QueryKind.ofTag_tag]
      simp only [inductionHypothesis]
      rfl
  | union left right leftHypothesis rightHypothesis
  | inter left right leftHypothesis rightHypothesis =>
      rw [describe, Query.ofDescription, QueryKind.ofTag_tag]
      simp only [leftHypothesis, rightHypothesis]
      rfl

/-- A query is rebuilt from its description. -/
theorem Query.ofDescription_describe (query : Query) : ofDescription query.describe = .ok query := by
  cases query with
  | empty => rfl
  | select selection => exact selection.ofDescription_describe

/--
A description is an object without fields for its empty lists, and is read back from it.  A query is
rebuilt from what is read back from its description, with its kind, its key and its description.
Whatever query an accepted description stands for, rebuilding that query from its own description
changes the description no more.
-/
theorem Query.descriptions_comeBack :
    (∀ description : Description, ∃ fields,
      description.toJson = .object fields ∧
        (Json.fieldIn? "params" fields = none ↔ description.params = []) ∧
        (Json.fieldIn? "children" fields = none ↔ description.children = []) ∧
        Description.ofJson? (.object fields) = some description) ∧
    (∀ query : Query, ∃ description rebuilt,
      Description.ofJson? query.describe.toJson = some description ∧
        ofDescription description = .ok rebuilt ∧
        rebuilt.kind = query.kind ∧ rebuilt.key = query.key ∧
        rebuilt.describe = query.describe) ∧
    ∀ description query, ofDescription description = .ok query →
      ∃ rebuilt, ofDescription query.describe = .ok rebuilt ∧
        rebuilt.describe = query.describe := by
  constructor
  · intro description
    cases description with
    | node tag params children =>
        refine ⟨_, Description.toJson_node tag params children, ?_, ?_, ?_⟩
        · rw [Description.fieldIn?_params]
          cases params <;> simp [Description.params]
        · rw [Description.fieldIn?_children]
          cases children <;> simp [Description.children, Description.listToJson]
        · rw [← Description.toJson_node]
          exact Description.ofJson?_toJson _
  · constructor
    · intro query
      exact ⟨query.describe, query, Description.ofJson?_toJson _, ofDescription_describe query,
        rfl, rfl, rfl⟩
    · intro description query _
      exact ⟨query, ofDescription_describe query, rfl⟩

/-- A union whose empty operands disappear, one of them below a link filter. -/
theorem Query.descriptions_comeBack_pruned :
    ofDescription (.node 4 [] [.node 0 [] [],
        .node 3 [7, 2] [.node 4 [] [.node 1 [1] [], .node 5 [] [.node 1 [2] [], .node 0 [] []]]]]) =
      .ok (.select (.linkedTo 7 2 (.ofType 1))) ∧
    ∃ rebuilt, ofDescription (.node 3 [7, 2] [.node 1 [1] []]) = .ok rebuilt ∧
      rebuilt.describe = .node 3 [7, 2] [.node 1 [1] []] :=
  have accepted : ofDescription (.node 4 [] [.node 0 [] [],
        .node 3 [7, 2] [.node 4 [] [.node 1 [1] [], .node 5 [] [.node 1 [2] [], .node 0 [] []]]]]) =
      .ok (.select (.linkedTo 7 2 (.ofType 1))) := by rfl
  ⟨accepted, descriptions_comeBack.2.2 _ _ accepted⟩

end EntityQuery
