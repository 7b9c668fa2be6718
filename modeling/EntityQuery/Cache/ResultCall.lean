import EntityQuery.Cache.Result

/-!
# Calls to a cached result

The questions and changes that a holder of a result can put to it directly.
-/

namespace EntityQuery

inductive ResultCall where
  | add (id : EntityId)
  | remove (id : EntityId)
  | contains (id : EntityId)
  | size
  /-- The member at a rank of the result's view. -/
  | member (rank : Nat)
  /-- Whether the result's view has a member. -/
  | hasMember (id : EntityId)
  /-- The result with the members that its view shows. -/
  | dump
  | debugText
deriving DecidableEq, Repr

inductive ResultReply where
  | flag (value : Bool)
  | number (value : Nat)
  | identity (id : Option EntityId)
  | result (result : CachedResult)
  | text (value : String)

namespace CachedResult

def call (result : CachedResult) : ResultCall → ResultReply × CachedResult
  | .add id => let (added, after) := result.add id; (.flag added, after)
  | .remove id => let (removed, after) := result.remove id; (.flag removed, after)
  | .contains id => (.flag (result.contains id), result)
  | .size => (.number result.size, result)
  | .member rank => let (view, after) := result.toSet; (.identity (view.get? rank), after)
  | .hasMember id => let (view, after) := result.toSet; (.flag (view.search id), after)
  | .dump => let (view, after) := result.toSet; (.result { after with ids := view }, after)
  | .debugText => (.text result.debugText, result)

/-- Answer calls one after the other. -/
def callAll : List ResultCall → CachedResult → List ResultReply × CachedResult
  | [], result => ([], result)
  | call :: rest, result =>
      let (reply, after) := result.call call
      let (replies, final) := callAll rest after
      (reply :: replies, final)

end CachedResult

end EntityQuery
