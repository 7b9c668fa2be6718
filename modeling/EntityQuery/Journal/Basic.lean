import EntityQuery.Journal.Event
import EntityQuery.Journal.Note

/-!
# Journals

What an operation has to tell besides its answer: the events it counted and the notes it made, each
in the order in which they arose.
-/

namespace EntityQuery

/-- Events and notes in the order in which they arose. -/
structure Journal where
  events : List Event
  notes : List Note
deriving DecidableEq, Repr

namespace Journal

def empty : Journal := ⟨[], []⟩

def ofEvents (events : List Event) : Journal := ⟨events, []⟩

def event (event : Event) : Journal := ⟨[event], []⟩

def note (note : Note) : Journal := ⟨[], [note]⟩

protected def append (first second : Journal) : Journal :=
  ⟨first.events ++ second.events, first.notes ++ second.notes⟩

instance : Append Journal := ⟨Journal.append⟩

/-- A note that is made only under a condition. -/
def noteIf (condition : Bool) (note : Note) : Journal :=
  if condition then .note note else .empty

theorem append_ofEvents (journal : Journal) (first second : List Event) :
    journal ++ ofEvents first ++ ofEvents second = journal ++ ofEvents (first ++ second) := by
  show Journal.append (Journal.append journal _) _ = Journal.append journal _
  simp [Journal.append, ofEvents]

theorem append_ofEvents_nil (journal : Journal) : journal ++ ofEvents [] = journal := by
  show Journal.append journal _ = journal
  simp [Journal.append, ofEvents]

end Journal

end EntityQuery
