import EntityQuery.Query.Basic
import EntityQuery.Query.Description

/-!
# Describing and rebuilding queries

Every query has a description, and every description whose nodes have known tags and the parameter
and child counts of their kinds is turned back into a query.  Nodes are checked from the root down
and children from left to right, so the error is that of the first offending node in this order.
-/

namespace EntityQuery

namespace Selection

def describe : Selection → Description
  | .ofType typeId => .node QueryKind.allEntities.tag [typeId] []
  | .withLink typeId linkId => .node QueryKind.entitiesWithLink.tag [typeId, linkId] []
  | .linkedTo typeId linkId target =>
      .node QueryKind.filterLinks.tag [typeId, linkId] [target.describe]
  | .union left right => .node QueryKind.union.tag [] [left.describe, right.describe]
  | .inter left right => .node QueryKind.intersect.tag [] [left.describe, right.describe]

end Selection

namespace Query

def describe : Query → Description
  | .empty => .node QueryKind.empty.tag [] []
  | .select selection => selection.describe

/-- The refusal of a node whose parameters or children are not as many as its kind has. -/
def arityError (kind : QueryKind) (tag : UInt8) (params : List UInt32)
    (children : List Description) : QueryError :=
  .descriptionArity tag kind.arity.1 kind.arity.2 params.length children.length

def ofDescription : Description → Except QueryError Query
  | .node tag params children =>
      match QueryKind.ofTag tag with
      | .error unknown => .error unknown
      | .ok kind =>
          match kind, params, children with
          | .empty, [], [] => .ok .empty
          | .allEntities, [typeId], [] => .ok (ofType typeId)
          | .entitiesWithLink, [typeId, linkId], [] => .ok (withLink typeId linkId)
          | .filterLinks, [typeId, linkId], [target] =>
              (ofDescription target).map (linkedTo typeId linkId)
          | .union, [], [left, right] =>
              match ofDescription left with
              | .error first => .error first
              | .ok leftQuery => (ofDescription right).map leftQuery.union
          | .intersect, [], [left, right] =>
              match ofDescription left with
              | .error first => .error first
              | .ok leftQuery => (ofDescription right).map leftQuery.inter
          | kind, params, children => .error (arityError kind tag params children)

end Query

end EntityQuery
