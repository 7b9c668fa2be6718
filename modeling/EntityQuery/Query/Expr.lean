import EntityQuery.Query.Describe

/-!
# Query expressions

A query is usually written as an expression over named queries and descriptions.  Expressions are
evaluated from left to right; the first error wins.
-/

namespace EntityQuery

inductive QueryExpr where
  | empty
  | ofType (typeId : TypeId)
  | withLink (typeId : TypeId) (linkId : LinkId)
  | linkedTo (typeId : TypeId) (linkId : LinkId) (target : QueryExpr)
  | union (left right : QueryExpr)
  | inter (left right : QueryExpr)
  | named (name : String)
  | described (description : Description)
deriving Inhabited

/-- Why an expression has no value. -/
inductive ExprError where
  | unknownName (name : String)
  | refused (error : QueryError)

namespace QueryExpr

/-- The query of an expression, where names are looked up in an environment. -/
def eval (environment : String → Option Query) : QueryExpr → Except ExprError Query
  | .empty => .ok .empty
  | .ofType typeId => .ok (.ofType typeId)
  | .withLink typeId linkId => .ok (.withLink typeId linkId)
  | .linkedTo typeId linkId target => do
      return Query.linkedTo typeId linkId (← target.eval environment)
  | .union left right => do
      let leftQuery ← left.eval environment
      let rightQuery ← right.eval environment
      return leftQuery.union rightQuery
  | .inter left right => do
      let leftQuery ← left.eval environment
      let rightQuery ← right.eval environment
      return leftQuery.inter rightQuery
  | .named name =>
      match environment name with
      | some query => .ok query
      | none => .error (.unknownName name)
  | .described description =>
      match Query.ofDescription description with
      | .ok query => .ok query
      | .error error => .error (.refused error)

end QueryExpr

/-- An expression for a query key. -/
inductive KeyExpr where
  | ofQuery (query : QueryExpr)
  | ofParts (kind : QueryKind) (parts : List (KeyPart KeyExpr))
  /-- A base key with a decorating key. -/
  | decorated (kind : QueryKind) (base decoration : KeyExpr)

namespace KeyExpr

mutual

def eval (environment : String → Option Query) : KeyExpr → Except ExprError QueryKey
  | .ofQuery query => do
      return (← query.eval environment).key
  | .ofParts kind parts => do
      return .ofParts kind (← evalParts environment parts)
  | .decorated kind base decoration => do
      let baseKey ← base.eval environment
      let decorationKey ← decoration.eval environment
      return .decorated kind baseKey decorationKey

/-- The parts of a key, with operands evaluated in order. -/
def evalParts (environment : String → Option Query) :
    List (KeyPart KeyExpr) → Except ExprError (List (KeyPart QueryKey))
  | [] => .ok []
  | .entityType typeId :: rest => do
      return .entityType typeId :: (← evalParts environment rest)
  | .link linkId :: rest => do
      return .link linkId :: (← evalParts environment rest)
  | .operand key :: rest => do
      let operandKey ← key.eval environment
      return .operand operandKey :: (← evalParts environment rest)

end

end KeyExpr

end EntityQuery
