import EntityQuery.Json
import EntityQuery.Query.Kind

/-!
# Portable descriptions of queries

A description holds, for each node of a query, the tag of its kind, its numeric parameters and the
descriptions of its children.  It is exchanged as JSON, where empty lists are left out, and is read
back from an object or, by position, from an array.
-/

namespace EntityQuery

/-- A description of one query node. -/
inductive Description where
  | node (tag : UInt8) (params : List UInt32) (children : List Description)
deriving Inhabited

namespace Description

def tag : Description → UInt8
  | .node tag _ _ => tag

def params : Description → List UInt32
  | .node _ params _ => params

def children : Description → List Description
  | .node _ _ children => children

/-! ## Writing -/

/-- The field of a list, which is left out where the list is empty. -/
def listField (name : String) : List Json → List (String × Json)
  | [] => []
  | items => [(name, .array items)]

mutual

def toJson : Description → Json
  | .node tag params children =>
      .object (("tag", .ofNat tag.toNat)
        :: listField "params" (params.map fun param => .ofNat param.toNat)
        ++ listField "children" (listToJson children))

def listToJson : List Description → List Json
  | [] => []
  | description :: rest => description.toJson :: listToJson rest

end

/-! ## Reading -/

/-- The parameters in a position or field, or none where it is absent. -/
def paramsOr? : Option Json → Option (List UInt32)
  | none => some []
  | some (.array items) => items.mapM Json.word32?
  | some _ => none

mutual

/-- Read a description from an object or an array. -/
def ofJson? : Json → Option Description
  | .object fields => do
      let tag ← (Json.fieldIn? "tag" fields).bind Json.byte?
      let params ← paramsOr? (Json.fieldIn? "params" fields)
      let children ← childrenField? fields
      return .node tag params children
  | .array [tag] => do
      return .node (← tag.byte?) [] []
  | .array [tag, params] => do
      return .node (← tag.byte?) (← paramsOr? (some params)) []
  | .array [tag, params, children] => do
      return .node (← tag.byte?) (← paramsOr? (some params)) (← children? children)
  | _ => none

/-- Read the children from an array. -/
def children? : Json → Option (List Description)
  | .array items => listOfJson? items
  | _ => none

def listOfJson? : List Json → Option (List Description)
  | [] => some []
  | item :: rest => do
      let description ← ofJson? item
      let others ← listOfJson? rest
      return description :: others

/-- Read the last field that is named for the children, or none where there is no such field. -/
def childrenField? : List (String × Json) → Option (List Description)
  | [] => some []
  | (name, value) :: rest =>
      if name == "children" && !(rest.any fun field => field.1 == "children") then
        children? value
      else
        childrenField? rest

end

end Description

end EntityQuery
