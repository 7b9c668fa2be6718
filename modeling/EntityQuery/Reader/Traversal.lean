import EntityQuery.Reader.Intersection
import EntityQuery.Reader.Join
import EntityQuery.Reader.Listed
import EntityQuery.Reader.Union

/-!
# Traversals

A traversal is a reader together with its state.  Its shape says how it is built from the elementary
readers; the shape fixes the type of the state and the operations on it, and no operation changes
it.

A traversal that is not needed any more is retired: what it still holds is released, as if it were
disposed, and the usage of its cursors is final.
-/

namespace EntityQuery

inductive ReaderShape where
  | empty
  | set
  | script
  | entities
  | links
  | sources
  | join
  | union (left right : ReaderShape)
  | intersection (left right : ReaderShape)
deriving DecidableEq, Repr

namespace ReaderShape

def State : ReaderShape → Type
  | .empty => Unit
  | .set => SetWalk
  | .script => List (Except QueryError EntityId)
  | .entities => EntityWalk
  | .links => LinkWalk
  | .sources => SourceWalk
  | .join => JoinWalk
  | .union left right | .intersection left right => Pair left.State right.State

/-- The reader of a shape. -/
def reader : (shape : ReaderShape) → Reader shape.State
  | .empty => emptyReader
  | .set => setReader
  | .script => scriptReader
  | .entities => entityReader
  | .links => linkReader
  | .sources => sourceReader
  | .join => joinReader
  | .union left right => unionReader left.reader right.reader
  | .intersection left right => intersectionReader left.reader right.reader

end ReaderShape

/-- A reader of some shape with its state. -/
structure Traversal where
  shape : ReaderShape
  state : shape.State

inductive ReaderCall where
  | hasNext
  | next
  | last
  | dispose
  /-- The target of the edge that was read last, which only the reader of edges knows. -/
  | target
deriving DecidableEq, Repr

inductive ReaderReply where
  | flag (value : Bool)
  | identity (id : Option EntityId)
deriving DecidableEq, Repr

namespace Traversal

/-! ## Elementary traversals -/

def empty : Traversal := ⟨.empty, ()⟩

def ofSet (set : IdSet) : Traversal := ⟨.set, SetWalk.ofSet set⟩

def ofScript (script : List (Except QueryError EntityId)) : Traversal := ⟨.script, script⟩

def ofEntities (typeId : TypeId) (entries : List Entry) : Traversal :=
  ⟨.entities, EntityWalk.ofEntries typeId entries⟩

/-- The sources of the edges of an index that was just opened. -/
def ofLinks (typeId : TypeId) (entries : List Entry) : Traversal :=
  ⟨.links, LinkWalk.ofEntries typeId entries⟩

/-- The distinct sources of an index that was just opened. -/
def ofSources (typeId : TypeId) (entries : List Entry) : Traversal :=
  ⟨.sources, SourceWalk.ofEntries typeId entries⟩

/-- The sources with a target in a set, of an index that was just opened. -/
def ofJoin (typeId : TypeId) (entries : List Entry) (targets : IdSet) : Traversal :=
  ⟨.join, JoinWalk.ofEntries typeId entries targets⟩

def union (left right : Traversal) : Traversal :=
  ⟨.union left.shape right.shape, Pair.ofStates left.state right.state⟩

def intersection (left right : Traversal) : Traversal :=
  ⟨.intersection left.shape right.shape, Pair.ofStates left.state right.state⟩

/-! ## Operations -/

def answer {α : Type} (traversal : Traversal) (result : α × traversal.shape.State) :
    α × Traversal :=
  (result.1, ⟨traversal.shape, result.2⟩)

def hasNext (traversal : Traversal) : Except QueryError Bool × Traversal :=
  traversal.answer (traversal.shape.reader.hasNext traversal.state)

def next (traversal : Traversal) : Yield × Traversal :=
  traversal.answer (traversal.shape.reader.next traversal.state)

def last (traversal : Traversal) : Yield × Traversal :=
  traversal.answer (traversal.shape.reader.last traversal.state)

/-- Release what is held and answer whether anything was. -/
def dispose (traversal : Traversal) : Bool × Traversal :=
  traversal.answer (traversal.shape.reader.dispose traversal.state)

/-- The cursors that were opened, and what became of them so far. -/
def cursors (traversal : Traversal) : List Usage :=
  traversal.shape.reader.cursors traversal.state

def drain (traversal : Traversal) : Except QueryError (List EntityId) × Traversal :=
  traversal.answer (traversal.shape.reader.drain traversal.state)

/-- The given number of answers of a walk that stops at the first error. -/
def walk (traversal : Traversal) (count : Nat) :
    List (Option (Except QueryError EntityId)) × Traversal :=
  traversal.answer (traversal.shape.reader.walk count traversal.state)

/-- The final usage of the cursors of a traversal that is given up. -/
def retire (traversal : Traversal) : List Usage :=
  traversal.dispose.2.cursors

/-- All identities, with the final usage of the cursors. -/
def collect (traversal : Traversal) : Except QueryError (List EntityId) × List Usage :=
  let (result, drained) := traversal.drain
  (result, drained.retire)

/-- The target of the edge that was read last, for a reader of edges. -/
def target : Traversal → Option EntityId
  | ⟨.links, walk⟩ => LinkWalk.target walk
  | _ => none

def call (traversal : Traversal) : ReaderCall → Except QueryError ReaderReply × Traversal
  | .hasNext =>
      let (result, after) := traversal.hasNext
      (result.map .flag, after)
  | .next =>
      let (result, after) := traversal.next
      (result.map .identity, after)
  | .last =>
      let (result, after) := traversal.last
      (result.map .identity, after)
  | .dispose =>
      let (released, after) := traversal.dispose
      (.ok (.flag released), after)
  | .target => (.ok (.identity traversal.target), traversal)

/-- Answer calls one after the other; an error of one does not stop the next. -/
def callAll : List ReaderCall → Traversal →
    List (Except QueryError ReaderReply) × Traversal
  | [], traversal => ([], traversal)
  | call :: rest, traversal =>
      let (reply, after) := traversal.call call
      let (replies, final) := callAll rest after
      (reply :: replies, final)

end Traversal

end EntityQuery
