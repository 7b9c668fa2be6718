import EntityQuery.Proofs.Engine.Uncached

/-!
# Following links

To follow a link from a receiver into a target, a query of link sources is made for the type of the
receiver, and it is intersected with the receiver unless the receiver is all of the type.  The query
that comes out stands for the members of the receiver that have such a link, on every store in which
links start at entities.

The type of the receiver has to bound its members, or sources of another type would get lost.  That
it does is an induction over the receiver: of an intersection only one operand need have a type.
-/

namespace EntityQuery

/-! ## The type of a query -/

/-- What a query stands for has the type of the query. -/
theorem Selection.typeId_eq {store : MemoryStore} {selection : Selection} {typeId : TypeId}
    (single : selection.singleType? = some typeId) {id : EntityId}
    (member : id ∈ selection.members store) : id.typeId = typeId := by
  induction selection with
  | ofType otherType =>
      cases single
      exact (MemoryStore.mem_entitiesOf.1 member).2
  | withLink otherType linkId =>
      cases single
      obtain ⟨edge, among, rfl⟩ := member
      exact (MemoryStore.mem_edgesOf.1 among).2.1
  | linkedTo otherType linkId target =>
      cases single
      obtain ⟨edge, among, rfl, _⟩ := member
      exact (MemoryStore.mem_edgesOf.1 among).2.1
  | union left right leftHypothesis rightHypothesis =>
      cases leftSingle : left.singleType? with
      | none => simp [singleType?, leftSingle] at single
      | some leftType =>
          cases rightSingle : right.singleType? with
          | none => simp [singleType?, leftSingle, rightSingle] at single
          | some rightType =>
              simp only [singleType?, leftSingle, rightSingle, Option.ite_none_right_eq_some,
                Option.some.injEq] at single
              obtain ⟨rfl, rfl⟩ := single
              rcases member with member | member
              · exact leftHypothesis leftSingle member
              · exact rightHypothesis rightSingle member
  | inter left right leftHypothesis rightHypothesis =>
      cases leftSingle : left.singleType? with
      | some leftType =>
          rw [singleType?, leftSingle] at single
          exact leftHypothesis (leftSingle.trans single) member.1
      | none =>
          rw [singleType?, leftSingle, Option.none_or] at single
          exact rightHypothesis single member.2

/-! ## The query that follows a link -/

namespace Selection

/-- The query that follows a link from a selection of a type. -/
def followed (selection : Selection) (typeId : TypeId) (link : LinkId) (target : Query) : Query :=
  match selection with
  | .ofType _ => .linkedTo typeId link target
  | _ => (Query.select selection).inter (.linkedTo typeId link target)

/-- The query that follows a link from a selection, which has to have a single type. -/
def follow (selection : Selection) (link : LinkId) (target : Query) : Except QueryError Query :=
  match selection.singleType? with
  | some typeId => .ok (selection.followed typeId link target)
  | none => .error (.severalTypes selection.key.canonical)

theorem follow_of_some {selection : Selection} {typeId : TypeId}
    (single : selection.singleType? = some typeId) (link : LinkId) (target : Query) :
    selection.follow link target = .ok (selection.followed typeId link target) := by
  rw [follow, single]

theorem follow_of_none {selection : Selection} (several : selection.singleType? = none)
    (link : LinkId) (target : Query) :
    selection.follow link target = .error (.severalTypes selection.key.canonical) := by
  rw [follow, several]

/-- Following a link succeeds for a selection of a single type, and only for one. -/
theorem follow_eq_ok_iff {selection : Selection} {link : LinkId} {target found : Query} :
    selection.follow link target = .ok found ↔
      ∃ typeId, selection.singleType? = some typeId ∧
        selection.followed typeId link target = found := by
  cases single : selection.singleType? with
  | none => simp [follow_of_none single]
  | some typeId => simp [follow_of_some single]

/-- Following a link selects those of the receiver that have such a link into the target. -/
theorem members_followed {store : MemoryStore} (stored : store.SourcesStored)
    {selection : Selection} {typeId : TypeId} (single : selection.singleType? = some typeId)
    (link : LinkId) (target : Query) :
    (selection.followed typeId link target).members store =
      selection.members store ∩ store.sourcesWithLink link (target.members store) := by
  have within : selection.members store ∩ (target.linkedTo typeId link).members store =
      selection.members store ∩ store.sourcesWithLink link (target.members store) := by
    ext id
    refine and_congr_right fun member => ?_
    rw [Query.mem_members_linkedTo, and_iff_left (typeId_eq single member)]
  cases selection with
  | ofType otherType =>
      cases single
      -- All sources of the type are entities, so they are all in the receiver.
      refine Eq.trans (Set.inter_eq_right.2 fun id member => ?_).symm within
      obtain ⟨⟨edge, among, rfl, _⟩, ofType⟩ := Query.mem_members_linkedTo.1 member
      exact MemoryStore.mem_entitiesOf.2 ⟨stored edge among, ofType⟩
  | withLink | linkedTo | union | inter => exact (Query.members_inter store _ _).trans within

end Selection

/-! ## Running it -/

namespace Query

variable {transaction : Transaction} {selection : Selection} {name : String}

theorem findLinks_of_unknown (unknown : transaction.view.resolve name = .ok none)
    (target : Query) (engine : Engine) :
    (select selection).findLinks transaction target name engine =
      (.ok .empty, { engine with journal := engine.journal ++ .note (.unknownLink name) }) := by
  rw [findLinks]
  refine (Action.bind_of_ok (congrArg (Prod.mk · engine) unknown)).trans ?_
  rfl

theorem findLinks_of_known {link : LinkId}
    (known : transaction.view.resolve name = .ok (some link)) (target : Query)
    (engine : Engine) :
    (select selection).findLinks transaction target name engine =
      (selection.follow link target, engine) := by
  rw [findLinks]
  refine (Action.bind_of_ok (congrArg (Prod.mk · engine) known)).trans ?_
  cases selection with
  | ofType | withLink | linkedTo => rfl
  | union left right | inter left right =>
      dsimp only [Selection.follow]
      split <;> rename_i single <;> simp only [single] <;> rfl

/-- The answer of a query that follows a link, against the lists of the receiver and the target. -/
theorem lists_followed {store : MemoryStore} (stored : store.SourcesStored)
    {selection : Selection} {typeId : TypeId} (single : selection.singleType? = some typeId)
    (link : LinkId) (target : Query) :
    ∃ members others ids, (select selection).Lists store members ∧ target.Lists store others ∧
      (selection.followed typeId link target).Lists store ids ∧ ids.Pairwise (· < ·) ∧
        ∀ id, id ∈ ids ↔ id ∈ members ∧
          ∃ edge ∈ store.edges, edge.source = id ∧ edge.link = link ∧ edge.target ∈ others := by
  refine ⟨_, _, _, lists_answer _ store, lists_answer _ store, lists_answer _ store,
    IdSet.ascending _, fun id => ?_⟩
  simp only [← IdSet.mem_def, mem_answer]
  rw [Selection.members_followed stored single link target]
  rfl

theorem findLinks_transaction {store : MemoryStore} {link : LinkId}
    (known : store.linkNumber? name = some link) (cached : Bool) (target : Query)
    (engine : Engine) :
    ((select selection).findLinks (store.transaction cached) target name engine).1 =
      selection.follow link target := by
  have resolved : (store.transaction cached).view.resolve name = .ok (some link) :=
    congrArg Except.ok known
  rw [findLinks_of_known resolved]

/--
What following a link of a name from a receiver into a target promises on a store.  Where the
receiver is empty or the name is unknown, no index is accessed: whatever a transaction with the same
names has for its indexes, the answer is the same, no cursor is opened, nothing is counted, and
nothing is looked up in the cache.
-/
structure FollowsLinks (store : MemoryStore) (receiver target : Query) (name : String) : Prop where
  succeeds_iff : ∀ link, receiver ≠ .empty → store.linkNumber? name = some link →
    ∀ cached engine,
      (∃ found, (receiver.findLinks (store.transaction cached) target name engine).1 = .ok found) ↔
        ∃ typeId, receiver.singleType? = some typeId
  refused : ∀ link, receiver ≠ .empty → store.linkNumber? name = some link →
    receiver.singleType? = none → ∀ cached engine,
      (receiver.findLinks (store.transaction cached) target name engine).1 =
        .error (.severalTypes receiver.key.canonical)
  listed : ∀ link, receiver ≠ .empty → store.linkNumber? name = some link →
    ∀ cached engine found,
      (receiver.findLinks (store.transaction cached) target name engine).1 = .ok found →
        ∃ members others ids, receiver.Lists store members ∧ target.Lists store others ∧
          found.Lists store ids ∧ ids.Pairwise (· < ·) ∧
            ∀ id, id ∈ ids ↔ id ∈ members ∧
              ∃ edge ∈ store.edges, edge.source = id ∧ edge.link = link ∧ edge.target ∈ others
  idle : receiver = .empty ∨ store.linkNumber? name = none →
    ∀ (transaction : Transaction) (engine : Engine),
      transaction.view.resolve name = store.view.resolve name →
        ∃ after, receiver.findLinks transaction target name engine = (.ok .empty, after) ∧
          after.cache = engine.cache ∧ after.ledger = engine.ledger ∧
            after.journal.events = engine.journal.events
  typed : ∀ typeId, receiver.singleType? = some typeId →
    ∃ members, receiver.Lists store members ∧ ∀ id ∈ members, id.typeId = typeId

theorem findLinks_followsLinks {store : MemoryStore} (stored : store.SourcesStored)
    (receiver target : Query) (name : String) : FollowsLinks store receiver target name := by
  cases receiver with
  | empty =>
      exact {
        succeeds_iff := fun _ nonempty => absurd rfl nonempty
        refused := fun _ nonempty => absurd rfl nonempty
        listed := fun _ nonempty => absurd rfl nonempty
        idle := fun _ transaction engine _ => ⟨engine, rfl, rfl, rfl, rfl⟩
        typed := nofun }
  | select selection =>
      exact {
        succeeds_iff := by
          intro link _ known cached engine
          simp only [findLinks_transaction known, Selection.follow_eq_ok_iff]
          constructor
          · rintro ⟨_, typeId, single, _⟩
            exact ⟨typeId, single⟩
          · rintro ⟨typeId, single⟩
            exact ⟨_, typeId, single, rfl⟩
        refused := by
          intro link _ known several cached engine
          rw [findLinks_transaction known]
          exact Selection.follow_of_none several link target
        listed := by
          intro link _ known cached engine found succeeded
          rw [findLinks_transaction known] at succeeded
          obtain ⟨typeId, single, rfl⟩ := Selection.follow_eq_ok_iff.1 succeeded
          exact lists_followed stored single link target
        idle := by
          rintro (empty | unknown) transaction engine names
          · cases empty
          · have unresolved : transaction.view.resolve name = .ok none :=
              names.trans (congrArg Except.ok unknown)
            refine ⟨_, findLinks_of_unknown unresolved target engine, rfl, rfl, ?_⟩
            exact List.append_nil _
        typed := by
          intro typeId single
          refine ⟨_, lists_answer _ store, fun id member => ?_⟩
          exact Selection.typeId_eq single (mem_answer.1 (IdSet.mem_def.2 member)) }

/-- A receiver of which only one operand has a type, on a store with two links of a name. -/
theorem findLinks_followsLinks_composite :
    let first := ((MemoryStore.empty.addEntity ⟨1, 1⟩).addEntity ⟨1, 2⟩).addEntity ⟨2, 7⟩
    let store := ((first.addLink ⟨1, 1⟩ "author" ⟨2, 7⟩).2.addLink ⟨1, 2⟩ "author" ⟨2, 9⟩).2
    let receiver := ((ofType 1).union (ofType 2)).inter (withLink 1 1)
    store.SourcesStored ∧ store.linkNumber? "author" = some 1 ∧ receiver.singleType? = some 1 ∧
      FollowsLinks store receiver (ofType 2) "author" := by
  intro first store receiver
  have empty : MemoryStore.empty.SourcesStored := nofun
  have entities : first.SourcesStored :=
    ((empty.addEntity ⟨1, 1⟩).addEntity ⟨1, 2⟩).addEntity ⟨2, 7⟩
  have stored : store.SourcesStored :=
    (entities.addLink "author" ⟨2, 7⟩ (by decide)).addLink "author" ⟨2, 9⟩ (by decide)
  exact ⟨stored, by decide, by decide, findLinks_followsLinks stored receiver (ofType 2) "author"⟩

end Query

end EntityQuery
