/-!
# Entries in order of use

The content of one cache partition is a list of keys and values, most recently used first.  A hit
moves its entry to the front; a new key goes to the front and, when the list is full, the last entry
leaves.
-/

namespace EntityQuery.Recency

variable {κ ν : Type} [DecidableEq κ]

/-- The value of a key. -/
def find? (key : κ) (entries : List (κ × ν)) : Option ν :=
  (entries.find? fun entry => entry.1 = key).map Prod.snd

def erase (key : κ) (entries : List (κ × ν)) : List (κ × ν) :=
  entries.filter fun entry => entry.1 ≠ key

/-- The entries after a key was asked for: a hit comes to the front. -/
def promote (key : κ) (entries : List (κ × ν)) : List (κ × ν) :=
  match find? key entries with
  | some value => (key, value) :: erase key entries
  | none => entries

/-- The entries after a key was written, of which there are never more than the capacity. -/
def put (capacity : Nat) (key : κ) (value : ν) (entries : List (κ × ν)) : List (κ × ν) :=
  if (find? key entries).isSome then (key, value) :: erase key entries
  else if entries.length < capacity then (key, value) :: entries
  else (key, value) :: entries.dropLast

/-- Visit the entries in order; the visit keeps an entry, perhaps with a new value, or drops it. -/
def revise {σ : Type} (visit : κ → ν → σ → Option ν × σ) :
    List (κ × ν) → σ → List (κ × ν) × σ
  | [], state => ([], state)
  | (key, value) :: rest, state =>
      let (kept, stateAfter) := visit key value state
      let (others, finalState) := revise visit rest stateAfter
      match kept with
      | some newValue => ((key, newValue) :: others, finalState)
      | none => (others, finalState)

/-- Visit the entries in order.  All of them are still there afterwards, those that are kept with
their new values; the keys of the others are listed. -/
def inspect {σ : Type} (visit : κ → ν → σ → Option ν × σ) :
    List (κ × ν) → σ → (List (κ × ν) × List κ) × σ
  | [], state => (([], []), state)
  | (key, value) :: rest, state =>
      let (kept, stateAfter) := visit key value state
      let ((others, doomed), finalState) := inspect visit rest stateAfter
      match kept with
      | some newValue => (((key, newValue) :: others, doomed), finalState)
      | none => (((key, value) :: others, key :: doomed), finalState)

/-- Visit the entries and, when all were visited, take out those that are not kept.  The answer is
how many these are. -/
def retain {σ : Type} (visit : κ → ν → σ → Option ν × σ) (entries : List (κ × ν)) (state : σ) :
    Nat × List (κ × ν) × σ :=
  let ((inspected, doomed), finalState) := inspect visit entries state
  (doomed.length, doomed.foldl (fun left key => erase key left) inspected, finalState)

end EntityQuery.Recency
