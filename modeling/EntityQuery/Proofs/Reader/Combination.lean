import EntityQuery.Proofs.Reader.Delivery

/-!
# What unions and intersections deliver

The lists that a merge and an intersection make of two ascending lists are given first, with their
members and their order.  A pair of children delivers these lists.

The invariant of a pair is what its children still offer: the identity of lookahead and what the
child delivers behind it.  A round keeps the invariant and takes the identities that it compared, so
delivery follows the recursion of the lists.
-/

namespace EntityQuery

/-! ## Lists -/

namespace Pair

/-- The merge of two ascending lists; a common identity is taken once. -/
def merged : List EntityId → List EntityId → List EntityId
  | [], [] => []
  | leftId :: left, [] => leftId :: merged left []
  | [], rightId :: right => rightId :: merged [] right
  | leftId :: left, rightId :: right =>
      if leftId < rightId then leftId :: merged left (rightId :: right)
      else if rightId < leftId then rightId :: merged (leftId :: left) right
      else leftId :: merged left right
termination_by left right => left.length + right.length

/-- The common identities of two ascending lists. -/
def common : List EntityId → List EntityId → List EntityId
  | [], _ => []
  | _ :: _, [] => []
  | leftId :: left, rightId :: right =>
      if leftId < rightId then common left (rightId :: right)
      else if rightId < leftId then common (leftId :: left) right
      else leftId :: common left right
termination_by left right => left.length + right.length

theorem mem_merged {left right : List EntityId} {id : EntityId} :
    id ∈ merged left right ↔ id ∈ left ∨ id ∈ right := by
  induction left, right using merged.induct with
  | case1 => simp [merged]
  | case2 leftId left inductionHypothesis => simp [merged, inductionHypothesis]
  | case3 rightId right inductionHypothesis => simp [merged, inductionHypothesis]
  | case4 leftId left rightId right less inductionHypothesis =>
      rw [merged, if_pos less, List.mem_cons, inductionHypothesis, ← or_assoc, ← List.mem_cons]
  | case5 leftId left rightId right notLess greater inductionHypothesis =>
      rw [merged, if_neg notLess, if_pos greater, List.mem_cons, inductionHypothesis,
        or_left_comm, ← List.mem_cons]
  | case6 leftId left rightId right notLess notGreater inductionHypothesis =>
      obtain rfl := EntityId.eq_of_not_lt notLess notGreater
      rw [merged, if_neg notLess, if_neg notGreater, List.mem_cons, inductionHypothesis,
        List.mem_cons, List.mem_cons]
      constructor
      · rintro (same | leftMember | rightMember)
        · exact .inl (.inl same)
        · exact .inl (.inr leftMember)
        · exact .inr (.inr rightMember)
      · rintro ((same | leftMember) | (same | rightMember))
        · exact .inl same
        · exact .inr (.inl leftMember)
        · exact .inl same
        · exact .inr (.inr rightMember)

/-- A lower bound of an ascending list that starts above it. -/
theorem lt_of_mem {bound head id : EntityId} {rest : List EntityId} (above : bound < head)
    (ascending : (head :: rest).Pairwise (· < ·)) (member : id ∈ head :: rest) : bound < id := by
  rcases List.mem_cons.1 member with rfl | member
  · exact above
  · exact EntityId.lt_trans above ((List.pairwise_cons.1 ascending).1 id member)

theorem ascending_merged {left right : List EntityId} (leftAscending : left.Pairwise (· < ·))
    (rightAscending : right.Pairwise (· < ·)) : (merged left right).Pairwise (· < ·) := by
  induction left, right using merged.induct with
  | case1 =>
      rw [merged]
      exact List.Pairwise.nil
  | case2 leftId left inductionHypothesis =>
      obtain ⟨leftFirst, leftRest⟩ := List.pairwise_cons.1 leftAscending
      rw [merged]
      refine List.pairwise_cons.2 ⟨?_, inductionHypothesis leftRest rightAscending⟩
      intro id member
      rcases mem_merged.1 member with member | member
      · exact leftFirst id member
      · cases member
  | case3 rightId right inductionHypothesis =>
      obtain ⟨rightFirst, rightRest⟩ := List.pairwise_cons.1 rightAscending
      rw [merged]
      refine List.pairwise_cons.2 ⟨?_, inductionHypothesis leftAscending rightRest⟩
      intro id member
      rcases mem_merged.1 member with member | member
      · cases member
      · exact rightFirst id member
  | case4 leftId left rightId right less inductionHypothesis =>
      obtain ⟨leftFirst, leftRest⟩ := List.pairwise_cons.1 leftAscending
      rw [merged, if_pos less]
      refine List.pairwise_cons.2 ⟨?_, inductionHypothesis leftRest rightAscending⟩
      intro id member
      rcases mem_merged.1 member with member | member
      · exact leftFirst id member
      · exact lt_of_mem less rightAscending member
  | case5 leftId left rightId right notLess greater inductionHypothesis =>
      obtain ⟨rightFirst, rightRest⟩ := List.pairwise_cons.1 rightAscending
      rw [merged, if_neg notLess, if_pos greater]
      refine List.pairwise_cons.2 ⟨?_, inductionHypothesis leftAscending rightRest⟩
      intro id member
      rcases mem_merged.1 member with member | member
      · exact lt_of_mem greater leftAscending member
      · exact rightFirst id member
  | case6 leftId left rightId right notLess notGreater inductionHypothesis =>
      obtain rfl := EntityId.eq_of_not_lt notLess notGreater
      obtain ⟨leftFirst, leftRest⟩ := List.pairwise_cons.1 leftAscending
      obtain ⟨rightFirst, rightRest⟩ := List.pairwise_cons.1 rightAscending
      rw [merged, if_neg notLess, if_neg notGreater]
      refine List.pairwise_cons.2 ⟨?_, inductionHypothesis leftRest rightRest⟩
      intro id member
      rcases mem_merged.1 member with member | member
      · exact leftFirst id member
      · exact rightFirst id member

theorem mem_common {left right : List EntityId} (leftAscending : left.Pairwise (· < ·))
    (rightAscending : right.Pairwise (· < ·)) {id : EntityId} :
    id ∈ common left right ↔ id ∈ left ∧ id ∈ right := by
  induction left, right using common.induct with
  | case1 right => simp [common]
  | case2 leftId left => simp [common]
  | case3 leftId left rightId right less inductionHypothesis =>
      rw [common, if_pos less, inductionHypothesis leftAscending.of_cons rightAscending]
      constructor
      · rintro ⟨leftMember, rightMember⟩
        exact ⟨List.mem_cons_of_mem leftId leftMember, rightMember⟩
      · rintro ⟨leftMember, rightMember⟩
        rcases List.mem_cons.1 leftMember with rfl | leftMember
        · exact absurd (lt_of_mem less rightAscending rightMember) (EntityId.lt_irrefl id)
        · exact ⟨leftMember, rightMember⟩
  | case4 leftId left rightId right notLess greater inductionHypothesis =>
      rw [common, if_neg notLess, if_pos greater,
        inductionHypothesis leftAscending rightAscending.of_cons]
      constructor
      · rintro ⟨leftMember, rightMember⟩
        exact ⟨leftMember, List.mem_cons_of_mem rightId rightMember⟩
      · rintro ⟨leftMember, rightMember⟩
        rcases List.mem_cons.1 rightMember with rfl | rightMember
        · exact absurd (lt_of_mem greater leftAscending leftMember) (EntityId.lt_irrefl id)
        · exact ⟨leftMember, rightMember⟩
  | case5 leftId left rightId right notLess notGreater inductionHypothesis =>
      obtain rfl := EntityId.eq_of_not_lt notLess notGreater
      obtain ⟨leftFirst, leftRest⟩ := List.pairwise_cons.1 leftAscending
      obtain ⟨rightFirst, rightRest⟩ := List.pairwise_cons.1 rightAscending
      rw [common, if_neg notLess, if_neg notGreater, List.mem_cons,
        inductionHypothesis leftRest rightRest]
      constructor
      · rintro (rfl | ⟨leftMember, rightMember⟩)
        · exact ⟨List.mem_cons_self, List.mem_cons_self⟩
        · exact ⟨List.mem_cons_of_mem _ leftMember, List.mem_cons_of_mem _ rightMember⟩
      · rintro ⟨leftMember, rightMember⟩
        rcases List.mem_cons.1 leftMember with same | leftMember
        · exact .inl same
        · rcases List.mem_cons.1 rightMember with same | rightMember
          · exact .inl same
          · exact .inr ⟨leftMember, rightMember⟩

/-- What two lists have in common is part of the first of them, in its order. -/
theorem common_sublist (left right : List EntityId) : (common left right).Sublist left := by
  induction left, right using common.induct with
  | case1 right => simp [common]
  | case2 leftId left => simp [common]
  | case3 leftId left rightId right less inductionHypothesis =>
      rw [common, if_pos less]
      exact inductionHypothesis.cons leftId
  | case4 leftId left rightId right notLess greater inductionHypothesis =>
      rw [common, if_neg notLess, if_pos greater]
      exact inductionHypothesis
  | case5 leftId left rightId right notLess notGreater inductionHypothesis =>
      rw [common, if_neg notLess, if_neg notGreater]
      exact inductionHypothesis.cons_cons leftId

end Pair

/-! ## What a child offers -/

namespace Feed

variable {σ : Type} {reader : Reader σ}

/-- The lookahead of a child, and what the child delivers behind it. -/
inductive Supplies (reader : Reader σ) : Feed σ → List EntityId → Prop
  | unread {state : σ} {last : Option EntityId} {ids : List EntityId} :
      reader.Delivers state ids → Supplies reader ⟨state, none, false, last⟩ ids
  | read {state : σ} {last : Option EntityId} {id : EntityId} {rest : List EntityId} :
      reader.Delivers state rest → Supplies reader ⟨state, some id, false, last⟩ (id :: rest)
  | ended {state : σ} {last : Option EntityId} : Supplies reader ⟨state, none, true, last⟩ []

/-- A child supplies an ascending list above the identity that was taken of it last. -/
structure Offers (reader : Reader σ) (feed : Feed σ) (ids : List EntityId) : Prop where
  supplies : feed.Supplies reader ids
  ascending : ids.Pairwise (· < ·)
  above : ∀ last ∈ feed.last, ∀ id ∈ ids, last < id

/-- The lookahead of a child is the head of a list, or the child has ended with the list. -/
structure Shows (feed : Feed σ) (ids : List EntityId) : Prop where
  item : feed.item = ids.head?
  done : feed.done = ids.isEmpty

theorem offers_ofState {state : σ} {ids : List EntityId} (delivers : reader.Delivers state ids)
    (ascending : ids.Pairwise (· < ·)) : (ofState state).Offers reader ids where
  supplies := .unread delivers
  ascending := ascending
  above := by simp [ofState]

/-- Filling a child that offers a list shows the head of the list. -/
theorem fill_of_offers {feed : Feed σ} {ids : List EntityId} (offers : feed.Offers reader ids)
    (combination : Combination) (side : Side) :
    ∃ filled, feed.fill reader combination side = (.ok (), filled) ∧
      filled.Offers reader ids ∧ filled.Shows ids := by
  obtain ⟨supplies, ascending, above⟩ := offers
  cases supplies with
  | unread delivers =>
      cases delivers with
      | @ended state after step =>
          rename_i last
          refine ⟨⟨after, none, true, last⟩, ?_, ⟨.ended, ascending, above⟩, rfl, rfl⟩
          simp [fill, step]
      | @yielded state after id rest step delivers =>
          rename_i last
          refine ⟨⟨after, some id, false, last⟩, ?_, ⟨.read delivers, ascending, above⟩, rfl, rfl⟩
          simp only [fill, step, accept]
          cases last with
          | none => rfl
          | some previous =>
              have behind : ¬ id < previous := by
                intro less
                have impossible := EntityId.lt_trans less (above previous rfl id List.mem_cons_self)
                exact EntityId.lt_irrefl id impossible
              simp [behind]
  | read delivers => exact ⟨_, rfl, ⟨.read delivers, ascending, above⟩, rfl, rfl⟩
  | ended => exact ⟨_, rfl, ⟨.ended, ascending, above⟩, rfl, rfl⟩

/-- Taking what a child shows leaves the rest of the list. -/
theorem offers_take {feed : Feed σ} {id : EntityId} {rest : List EntityId}
    (offers : feed.Offers reader (id :: rest)) (shows : feed.Shows (id :: rest)) :
    feed.take.Offers reader rest := by
  obtain ⟨supplies, ascending, _⟩ := offers
  obtain ⟨idFirst, restAscending⟩ := List.pairwise_cons.1 ascending
  cases supplies with
  | unread delivers => cases shows.item
  | read delivers =>
      refine ⟨.unread delivers, restAscending, ?_⟩
      rintro last ⟨⟩
      exact idFirst

end Feed

/-! ## What a pair offers -/

namespace Pair

variable {σ τ : Type} {leftReader : Reader σ} {rightReader : Reader τ} {pair : Pair σ τ}
  {left right : List EntityId}

/-- Both children offer their lists, and everything that was yielded is below them. -/
structure Offers (leftReader : Reader σ) (rightReader : Reader τ) (pair : Pair σ τ)
    (left right : List EntityId) : Prop where
  fromLeft : pair.left.Offers leftReader left
  fromRight : pair.right.Offers rightReader right
  pending : pair.pending = none
  above : ∀ last ∈ pair.emitted, ∀ id, id ∈ left ∨ id ∈ right → last < id

theorem offers_ofStates {leftState : σ} {rightState : τ}
    (leftDelivers : leftReader.Delivers leftState left)
    (rightDelivers : rightReader.Delivers rightState right)
    (leftAscending : left.Pairwise (· < ·)) (rightAscending : right.Pairwise (· < ·)) :
    (ofStates leftState rightState).Offers leftReader rightReader left right where
  fromLeft := Feed.offers_ofState leftDelivers leftAscending
  fromRight := Feed.offers_ofState rightDelivers rightAscending
  pending := rfl
  above := by simp [ofStates]

theorem Offers.left_lt {id other : EntityId}
    (offers : pair.Offers leftReader rightReader (id :: left) right) (member : other ∈ left) :
    id < other :=
  (List.pairwise_cons.1 offers.fromLeft.ascending).1 other member

theorem Offers.right_lt {id other : EntityId}
    (offers : pair.Offers leftReader rightReader left (id :: right)) (member : other ∈ right) :
    id < other :=
  (List.pairwise_cons.1 offers.fromRight.ascending).1 other member

theorem fillLeft_of_offers (offers : pair.Offers leftReader rightReader left right)
    (combination : Combination) :
    ∃ filled, pair.fillLeft leftReader combination = (.ok (), filled) ∧
      filled.Offers leftReader rightReader left right ∧ filled.left.Shows left := by
  obtain ⟨feed, step, feedOffers, shows⟩ := Feed.fill_of_offers offers.fromLeft combination .left
  refine ⟨{ pair with left := feed }, ?_, ?_, shows⟩
  · rw [fillLeft, step]
  · exact ⟨feedOffers, offers.fromRight, offers.pending, offers.above⟩

theorem fillRight_of_offers (offers : pair.Offers leftReader rightReader left right)
    (combination : Combination) :
    ∃ filled, pair.fillRight rightReader combination = (.ok (), filled) ∧
      filled.Offers leftReader rightReader left right ∧ filled.right.Shows right ∧
        filled.left = pair.left := by
  obtain ⟨feed, step, feedOffers, shows⟩ := Feed.fill_of_offers offers.fromRight combination .right
  refine ⟨{ pair with right := feed }, ?_, ?_, shows, rfl⟩
  · rw [fillRight, step]
  · exact ⟨offers.fromLeft, feedOffers, offers.pending, offers.above⟩

theorem fillBoth_of_offers (offers : pair.Offers leftReader rightReader left right)
    (combination : Combination) :
    ∃ filled, pair.fillBoth leftReader rightReader combination = (.ok (), filled) ∧
      filled.Offers leftReader rightReader left right ∧ filled.left.Shows left ∧
        filled.right.Shows right := by
  obtain ⟨half, leftStep, halfOffers, leftShows⟩ := fillLeft_of_offers offers combination
  obtain ⟨filled, rightStep, filledOffers, rightShows, sameLeft⟩ :=
    fillRight_of_offers halfOffers combination
  refine ⟨filled, ?_, filledOffers, sameLeft ▸ leftShows, rightShows⟩
  rw [fillBoth, leftStep]
  exact rightStep

theorem takeLeft_of_offers {id : EntityId}
    (offers : pair.Offers leftReader rightReader (id :: left) right)
    (shows : pair.left.Shows (id :: left)) :
    pair.takeLeft.Offers leftReader rightReader left right where
  fromLeft := Feed.offers_take offers.fromLeft shows
  fromRight := offers.fromRight
  pending := offers.pending
  above last emitted other member :=
    offers.above last emitted other (member.imp_left (List.mem_cons_of_mem id))

theorem takeRight_of_offers {id : EntityId}
    (offers : pair.Offers leftReader rightReader left (id :: right))
    (shows : pair.right.Shows (id :: right)) :
    pair.takeRight.Offers leftReader rightReader left right where
  fromLeft := offers.fromLeft
  fromRight := Feed.offers_take offers.fromRight shows
  pending := offers.pending
  above last emitted other member :=
    offers.above last emitted other (member.imp_right (List.mem_cons_of_mem id))

/-- An identity between what was yielded and what is offered is yielded. -/
theorem emitOnce_of_offers {id : EntityId}
    (offers : pair.Offers leftReader rightReader left right)
    (behind : ∀ last ∈ pair.emitted, last < id)
    (ahead : ∀ other, other ∈ left ∨ other ∈ right → id < other) :
    ∃ after, pair.emitOnce id = (some (.ok (some id)), after) ∧
      after.Offers leftReader rightReader left right := by
  have fresh : pair.emitted ≠ some id := by
    intro repeated
    exact EntityId.lt_irrefl id (behind id repeated)
  refine ⟨{ pair with emitted := some id }, ?_, offers.fromLeft, offers.fromRight,
    offers.pending, ?_⟩
  · rw [emitOnce, if_neg fresh]
  · rintro last ⟨⟩
    exact ahead

/-! ## Rounds -/

section Rounds

variable {round : Round leftReader rightReader}

theorem fetch_of_answer {found : Yield} {after : Pair σ τ}
    (step : round.step pair = (some found, after)) : pair.fetch round = (found, after) := by
  rw [fetch]
  split
  · rename_i answered
    rw [step] at answered
    cases answered
    rfl
  · rename_i silent
    rw [step] at silent
    cases silent

theorem fetch_of_silence {after : Pair σ τ} (step : round.step pair = (none, after)) :
    pair.fetch round = after.fetch round := by
  rw [fetch]
  split
  · rename_i answered
    rw [step] at answered
    cases answered
  · rename_i silent
    rw [step] at silent
    cases silent
    rfl

theorem next_eq_fetch (nothing : pair.pending = none) : pair.next round = pair.fetch round := by
  rw [next, nothing]

/-- A round that ends ends the delivery. -/
theorem delivers_of_end {after : Pair σ τ} (nothing : pair.pending = none)
    (step : round.step pair = (some (.ok none), after)) :
    (pairReader round).Delivers pair [] :=
  .ended ((next_eq_fetch nothing).trans (fetch_of_answer step))

/-- A round that yields an identity delivers it first. -/
theorem delivers_of_yield {after : Pair σ τ} {id : EntityId} {rest : List EntityId}
    (nothing : pair.pending = none) (step : round.step pair = (some (.ok (some id)), after))
    (delivers : (pairReader round).Delivers after rest) :
    (pairReader round).Delivers pair (id :: rest) :=
  .yielded ((next_eq_fetch nothing).trans (fetch_of_answer step)) delivers

/-- A round without an answer delivers what the next one does. -/
theorem delivers_of_silence {after : Pair σ τ} {ids : List EntityId}
    (nothing : pair.pending = none) (nothingAfter : after.pending = none)
    (step : round.step pair = (none, after)) (delivers : (pairReader round).Delivers after ids) :
    (pairReader round).Delivers pair ids := by
  refine delivers.congr ?_
  show pair.next round = after.next round
  rw [next_eq_fetch nothing, next_eq_fetch nothingAfter, fetch_of_silence step]

end Rounds

/-! ## Unions -/

/-- A merge yields the least head and goes on with the rest. -/
theorem delivers_of_least {filled taken : Pair σ τ} {id : EntityId}
    {leftRest rightRest rest : List EntityId} (nothing : pair.pending = none)
    (filling : pair.fillBoth leftReader rightReader .union = (.ok (), filled))
    (least : filled.takeLeast = some (id, taken))
    (offers : taken.Offers leftReader rightReader leftRest rightRest)
    (behind : ∀ last ∈ taken.emitted, last < id)
    (ahead : ∀ other, other ∈ leftRest ∨ other ∈ rightRest → id < other)
    (delivers : ∀ {after : Pair σ τ}, after.Offers leftReader rightReader leftRest rightRest →
      (unionReader leftReader rightReader).Delivers after rest) :
    (unionReader leftReader rightReader).Delivers pair (id :: rest) := by
  obtain ⟨after, emission, afterOffers⟩ := emitOnce_of_offers offers behind ahead
  have step : pair.unionStep leftReader rightReader = (some (.ok (some id)), after) := by
    simp only [unionStep, filling, least, emission]
  exact delivers_of_yield nothing step (delivers afterOffers)

/-- A merge of two children delivers the merge of their lists. -/
theorem delivers_merged (offers : pair.Offers leftReader rightReader left right) :
    (unionReader leftReader rightReader).Delivers pair (merged left right) := by
  induction left, right using merged.induct generalizing pair with
  | case1 =>
      obtain ⟨filled, filling, _, leftShows, rightShows⟩ := fillBoth_of_offers offers .union
      have step : pair.unionStep leftReader rightReader = (some (.ok none), filled) := by
        simp [unionStep, filling, takeLeast, leftShows.item, rightShows.item]
      rw [merged]
      exact delivers_of_end offers.pending step
  | case2 leftId left inductionHypothesis =>
      obtain ⟨filled, filling, filledOffers, leftShows, rightShows⟩ :=
        fillBoth_of_offers offers .union
      have least : filled.takeLeast = some (leftId, filled.takeLeft) := by
        simp [takeLeast, leftShows.item, rightShows.item]
      rw [merged]
      refine delivers_of_least offers.pending filling least
        (takeLeft_of_offers filledOffers leftShows) ?_ ?_ inductionHypothesis
      · intro last emitted
        exact filledOffers.above last emitted leftId (.inl List.mem_cons_self)
      · rintro other (member | member)
        · exact filledOffers.left_lt member
        · cases member
  | case3 rightId right inductionHypothesis =>
      obtain ⟨filled, filling, filledOffers, leftShows, rightShows⟩ :=
        fillBoth_of_offers offers .union
      have least : filled.takeLeast = some (rightId, filled.takeRight) := by
        simp [takeLeast, leftShows.item, rightShows.item]
      rw [merged]
      refine delivers_of_least offers.pending filling least
        (takeRight_of_offers filledOffers rightShows) ?_ ?_ inductionHypothesis
      · intro last emitted
        exact filledOffers.above last emitted rightId (.inr List.mem_cons_self)
      · rintro other (member | member)
        · cases member
        · exact filledOffers.right_lt member
  | case4 leftId left rightId right less inductionHypothesis =>
      obtain ⟨filled, filling, filledOffers, leftShows, rightShows⟩ :=
        fillBoth_of_offers offers .union
      have least : filled.takeLeast = some (leftId, filled.takeLeft) := by
        simp [takeLeast, leftShows.item, rightShows.item, less]
      rw [merged, if_pos less]
      refine delivers_of_least offers.pending filling least
        (takeLeft_of_offers filledOffers leftShows) ?_ ?_ inductionHypothesis
      · intro last emitted
        exact filledOffers.above last emitted leftId (.inl List.mem_cons_self)
      · rintro other (member | member)
        · exact filledOffers.left_lt member
        · exact lt_of_mem less filledOffers.fromRight.ascending member
  | case5 leftId left rightId right notLess greater inductionHypothesis =>
      obtain ⟨filled, filling, filledOffers, leftShows, rightShows⟩ :=
        fillBoth_of_offers offers .union
      have least : filled.takeLeast = some (rightId, filled.takeRight) := by
        simp [takeLeast, leftShows.item, rightShows.item, notLess, greater]
      rw [merged, if_neg notLess, if_pos greater]
      refine delivers_of_least offers.pending filling least
        (takeRight_of_offers filledOffers rightShows) ?_ ?_ inductionHypothesis
      · intro last emitted
        exact filledOffers.above last emitted rightId (.inr List.mem_cons_self)
      · rintro other (member | member)
        · exact lt_of_mem greater filledOffers.fromLeft.ascending member
        · exact filledOffers.right_lt member
  | case6 leftId left rightId right notLess notGreater inductionHypothesis =>
      obtain rfl := EntityId.eq_of_not_lt notLess notGreater
      obtain ⟨filled, filling, filledOffers, leftShows, rightShows⟩ :=
        fillBoth_of_offers offers .union
      have least : filled.takeLeast = some (leftId, filled.takeLeft.takeRight) := by
        simp [takeLeast, leftShows.item, rightShows.item, notLess]
      rw [merged, if_neg notLess, if_neg notGreater]
      have restOffers :=
        takeRight_of_offers (takeLeft_of_offers filledOffers leftShows) rightShows
      refine delivers_of_least offers.pending filling least restOffers ?_ ?_ inductionHypothesis
      · intro last emitted
        exact filledOffers.above last emitted leftId (.inl List.mem_cons_self)
      · rintro other (member | member)
        · exact filledOffers.left_lt member
        · exact filledOffers.right_lt member

/-! ## Intersections -/

theorem fillUntilEnd_of_offers_nil (offers : pair.Offers leftReader rightReader [] right)
    (combination : Combination) :
    ∃ filled, pair.fillUntilEnd leftReader rightReader combination = (.ok (), filled) ∧
      filled.ended = true := by
  obtain ⟨filled, leftStep, _, leftShows⟩ := fillLeft_of_offers offers combination
  have leftDone : filled.left.done = true := leftShows.done
  refine ⟨filled, ?_, ?_⟩
  · rw [fillUntilEnd, leftStep]
    exact if_pos leftDone
  · rw [ended, leftDone, Bool.true_or]

theorem fillUntilEnd_of_offers_cons {id : EntityId}
    (offers : pair.Offers leftReader rightReader (id :: left) right) (combination : Combination) :
    ∃ filled, pair.fillUntilEnd leftReader rightReader combination = (.ok (), filled) ∧
      filled.Offers leftReader rightReader (id :: left) right ∧ filled.left.Shows (id :: left) ∧
        filled.right.Shows right := by
  obtain ⟨half, leftStep, halfOffers, leftShows⟩ := fillLeft_of_offers offers combination
  obtain ⟨filled, rightStep, filledOffers, rightShows, sameLeft⟩ :=
    fillRight_of_offers halfOffers combination
  refine ⟨filled, ?_, filledOffers, sameLeft ▸ leftShows, rightShows⟩
  have leftOpen : ¬ half.left.done = true := by
    rw [leftShows.done]
    exact Bool.false_ne_true
  rw [fillUntilEnd, leftStep]
  exact (if_neg leftOpen).trans rightStep

/-- An intersection of two children delivers what their lists have in common. -/
theorem delivers_common (offers : pair.Offers leftReader rightReader left right) :
    (intersectionReader leftReader rightReader).Delivers pair (common left right) := by
  induction left, right using common.induct generalizing pair with
  | case1 right =>
      obtain ⟨filled, filling, ended⟩ := fillUntilEnd_of_offers_nil offers .intersection
      have step : pair.intersectionStep leftReader rightReader = (some (.ok none), filled) := by
        simp [intersectionStep, filling, ended]
      rw [common]
      exact delivers_of_end offers.pending step
  | case2 leftId left =>
      obtain ⟨filled, filling, _, _, rightShows⟩ :=
        fillUntilEnd_of_offers_cons offers .intersection
      have step : pair.intersectionStep leftReader rightReader = (some (.ok none), filled) := by
        simp [intersectionStep, filling, ended, rightShows.done]
      rw [common]
      exact delivers_of_end offers.pending step
  | case3 leftId left rightId right less inductionHypothesis =>
      obtain ⟨filled, filling, filledOffers, leftShows, rightShows⟩ :=
        fillUntilEnd_of_offers_cons offers .intersection
      have step : pair.intersectionStep leftReader rightReader = (none, filled.takeLeft) := by
        simp [intersectionStep, filling, ended, leftShows.done, rightShows.done, leftShows.item,
          rightShows.item, less]
      have restOffers := takeLeft_of_offers filledOffers leftShows
      rw [common, if_pos less]
      exact delivers_of_silence offers.pending restOffers.pending step
        (inductionHypothesis restOffers)
  | case4 leftId left rightId right notLess greater inductionHypothesis =>
      obtain ⟨filled, filling, filledOffers, leftShows, rightShows⟩ :=
        fillUntilEnd_of_offers_cons offers .intersection
      have step : pair.intersectionStep leftReader rightReader = (none, filled.takeRight) := by
        simp [intersectionStep, filling, ended, leftShows.done, rightShows.done, leftShows.item,
          rightShows.item, notLess, greater]
      have restOffers := takeRight_of_offers filledOffers rightShows
      rw [common, if_neg notLess, if_pos greater]
      exact delivers_of_silence offers.pending restOffers.pending step
        (inductionHypothesis restOffers)
  | case5 leftId left rightId right notLess notGreater inductionHypothesis =>
      obtain rfl := EntityId.eq_of_not_lt notLess notGreater
      obtain ⟨filled, filling, filledOffers, leftShows, rightShows⟩ :=
        fillUntilEnd_of_offers_cons offers .intersection
      have restOffers :=
        takeRight_of_offers (takeLeft_of_offers filledOffers leftShows) rightShows
      have behind : ∀ last ∈ filled.takeLeft.takeRight.emitted, last < leftId := by
        intro last emitted
        exact filledOffers.above last emitted leftId (.inl List.mem_cons_self)
      obtain ⟨after, emission, afterOffers⟩ := emitOnce_of_offers restOffers behind (by
        rintro other (member | member)
        · exact filledOffers.left_lt member
        · exact filledOffers.right_lt member)
      have step : pair.intersectionStep leftReader rightReader =
          (some (.ok (some leftId)), after) := by
        simp [intersectionStep, filling, ended, leftShows.done, rightShows.done, leftShows.item,
          rightShows.item, notLess, emission]
      rw [common, if_neg notLess, if_neg notGreater]
      exact delivers_of_yield offers.pending step (inductionHypothesis afterOffers)

end Pair

/-! ## Traversals -/

namespace IdSet

/-- The members of either set. -/
def union (left right : IdSet) : IdSet where
  ids := Pair.merged left.ids right.ids
  ascending := Pair.ascending_merged left.ascending right.ascending

/-- The members of both sets. -/
def inter (left right : IdSet) : IdSet where
  ids := Pair.common left.ids right.ids
  ascending := left.ascending.sublist (Pair.common_sublist left.ids right.ids)

theorem mem_union {left right : IdSet} {id : EntityId} :
    id ∈ left.union right ↔ id ∈ left ∨ id ∈ right :=
  Pair.mem_merged

theorem mem_inter {left right : IdSet} {id : EntityId} :
    id ∈ left.inter right ↔ id ∈ left ∧ id ∈ right :=
  Pair.mem_common left.ascending right.ascending

end IdSet

namespace Traversal

variable {left right : Traversal} {leftSet rightSet : IdSet}

theorem delivers_union (leftDelivers : left.Delivers leftSet.ids)
    (rightDelivers : right.Delivers rightSet.ids) :
    (left.union right).Delivers (leftSet.union rightSet).ids :=
  Pair.delivers_merged
    (Pair.offers_ofStates leftDelivers rightDelivers leftSet.ascending rightSet.ascending)

theorem delivers_intersection (leftDelivers : left.Delivers leftSet.ids)
    (rightDelivers : right.Delivers rightSet.ids) :
    (left.intersection right).Delivers (leftSet.inter rightSet).ids :=
  Pair.delivers_common
    (Pair.offers_ofStates leftDelivers rightDelivers leftSet.ascending rightSet.ascending)

end Traversal

end EntityQuery
