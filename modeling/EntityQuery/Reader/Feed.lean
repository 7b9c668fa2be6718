import EntityQuery.Reader.Basic

/-!
# One child of an ordered combination

A combination reads each of its children with one identity of lookahead.  A child must not go below
the identity that was taken of it last; one that does is an error, and the identity is lost.
-/

namespace EntityQuery

/-- A child of a pair with its lookahead. -/
structure Feed (σ : Type) where
  state : σ
  /-- The identity that was read but not taken. -/
  item : Option EntityId
  /-- Whether the child has ended. -/
  done : Bool
  /-- The identity that was taken last. -/
  last : Option EntityId

namespace Feed

variable {σ : Type}

def ofState (state : σ) : Feed σ := ⟨state, none, false, none⟩

/-- Accept an identity that the child yielded, unless it goes below the one taken last. -/
def accept (combination : Combination) (side : Side) (feed : Feed σ) (id : EntityId) :
    Except QueryError Unit × Feed σ :=
  match feed.last with
  | none => (.ok (), { feed with item := some id })
  | some previous =>
      if id < previous then (.error (.childOutOfOrder combination side previous id), feed)
      else (.ok (), { feed with item := some id })

/-- Make an identity available, unless the child has ended. -/
def fill (reader : Reader σ) (combination : Combination) (side : Side) (feed : Feed σ) :
    Except QueryError Unit × Feed σ :=
  if feed.done || feed.item.isSome then (.ok (), feed)
  else
    match reader.next feed.state with
    | (.error error, state) => (.error error, { feed with state })
    | (.ok none, state) => (.ok (), { feed with state, done := true })
    | (.ok (some id), state) => { feed with state }.accept combination side id

def take (feed : Feed σ) : Feed σ :=
  { feed with item := none, last := feed.item.or feed.last }

/-- The most identities that can still be taken. -/
def budget (reader : Reader σ) (feed : Feed σ) : Nat :=
  reader.budget feed.state + (if feed.item.isSome then 1 else 0)

theorem budget_fill (reader : Reader σ) (combination : Combination) (side : Side)
    (feed : Feed σ) : (feed.fill reader combination side).2.budget reader ≤ feed.budget reader := by
  have reading := reader.budget_next feed.state
  simp only [fill]
  split
  · exact Nat.le_refl _
  · split
    · rename_i step
      rw [step] at reading
      simp only [budget, Yield.count] at *
      omega
    · rename_i step
      rw [step] at reading
      simp only [budget, Yield.count] at *
      omega
    · rename_i id state step
      rw [step] at reading
      simp only [accept, Yield.count] at *
      split
      · simp only [budget, Option.isSome_some, if_true]
        omega
      · split
        · simp only [budget]
          omega
        · simp only [budget, Option.isSome_some, if_true]
          omega

theorem budget_take {reader : Reader σ} {feed : Feed σ} {id : EntityId}
    (available : feed.item = some id) : feed.take.budget reader < feed.budget reader := by
  simp [budget, take, available]

theorem budget_take_le (reader : Reader σ) (feed : Feed σ) :
    feed.take.budget reader ≤ feed.budget reader := by
  simp [budget, take]

end Feed

end EntityQuery
