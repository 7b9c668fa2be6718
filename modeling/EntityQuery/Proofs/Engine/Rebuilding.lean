import EntityQuery.Proofs.Engine.Interchange
import EntityQuery.Query.Describe

/-!
# Queries that are rebuilt from descriptions

A description is turned into a query exactly if each of its nodes, at every depth, has a known tag and
the parameters and children of its kind.  The constructors drop what a query without results makes
pointless, but only after everything was read: an operand that is dropped is checked like any other.

The error of any other description is that of its first offending node, where a node comes before its
children and these come from left to right.

What is rebuilt answers the set that the description means, whatever the constructors dropped.
-/

namespace EntityQuery

/-! ## Tags -/

namespace QueryKind

theorem mem_all (kind : QueryKind) : kind ∈ all := by
  cases kind <;> decide

theorem tag_eq_of_ofTag {tag : UInt8} {kind : QueryKind} (known : ofTag tag = .ok kind) :
    kind.tag = tag := by
  rw [ofTag] at known
  split at known
  · rename_i found
    cases known
    simpa using List.find?_some found
  · cases known

theorem unknown_of_ofTag {tag : UInt8} {error : QueryError} (unknown : ofTag tag = .error error) :
    error = .unknownKindTag tag ∧ ∀ kind : QueryKind, kind.tag ≠ tag := by
  rw [ofTag] at unknown
  split at unknown
  · cases unknown
  · rename_i missing
    cases unknown
    refine ⟨rfl, ?_⟩
    intro kind same
    have different := List.find?_eq_none.1 missing kind (mem_all kind)
    exact different (beq_iff_eq.2 same)

end QueryKind

namespace Description

/-! ## Nodes -/

mutual

/-- The nodes of a description, each one before its children. -/
def nodes : Description → List Description
  | .node tag params children => .node tag params children :: listNodes children

def listNodes : List Description → List Description
  | [] => []
  | first :: rest => first.nodes ++ listNodes rest

end

/-- A node has a known tag and the parameters and children of its kind. -/
def WellFormed (node : Description) : Prop :=
  ∃ kind : QueryKind, kind.tag = node.tag ∧ node.params.length = kind.arity.1 ∧
    node.children.length = kind.arity.2

/-- What is wrong with a node. -/
inductive Offends (node : Description) : QueryError → Prop
  | unknownTag :
      (∀ kind : QueryKind, kind.tag ≠ node.tag) → Offends node (.unknownKindTag node.tag)
  | wrongArity {kind : QueryKind} :
      kind.tag = node.tag →
        ¬ (node.params.length = kind.arity.1 ∧ node.children.length = kind.arity.2) →
          Offends node (Query.arityError kind node.tag node.params node.children)

/-- The entities that a description means, told by what is stored. -/
def denoted (store : MemoryStore) : Description → Set EntityId
  | .node tag params children =>
      match QueryKind.ofTag tag, params, children with
      | .ok .empty, [], [] => ∅
      | .ok .allEntities, [typeId], [] => {id | id ∈ store.entities ∧ id.typeId = typeId}
      | .ok .entitiesWithLink, [typeId, linkId], [] =>
          {id | id ∈ store.sourcesWithLink linkId Set.univ ∧ id.typeId = typeId}
      | .ok .filterLinks, [typeId, linkId], [target] =>
          {id | id ∈ store.sourcesWithLink linkId (target.denoted store) ∧ id.typeId = typeId}
      | .ok .union, [], [left, right] => left.denoted store ∪ right.denoted store
      | .ok .intersect, [], [left, right] => left.denoted store ∩ right.denoted store
      | _, _, _ => ∅

theorem Offends.not_wellFormed {node : Description} {error : QueryError}
    (offends : node.Offends error) : ¬ node.WellFormed := by
  rintro ⟨kind, known, counted⟩
  cases offends with
  | unknownTag unknown => exact unknown kind known
  | @wrongArity other sameTag miscounted =>
      have same : other = kind := QueryKind.tag_injective (sameTag.trans known.symm)
      subst same
      exact miscounted counted

/-- The first node that offends is preceded by well-formed ones. -/
def FirstOffence (nodes : List Description) (error : QueryError) : Prop :=
  ∃ before offender after, nodes = before ++ offender :: after ∧
    (∀ node ∈ before, node.WellFormed) ∧ offender.Offends error

theorem FirstOffence.of_head {node : Description} {error : QueryError}
    (offends : node.Offends error) (rest : List Description) : FirstOffence (node :: rest) error :=
  ⟨[], node, rest, rfl, nofun, offends⟩

theorem FirstOffence.append {nodes : List Description} {error : QueryError}
    (offence : FirstOffence nodes error) {front : List Description}
    (wellFormed : ∀ node ∈ front, node.WellFormed) (back : List Description) :
    FirstOffence (front ++ nodes ++ back) error := by
  rcases offence with ⟨before, offender, after, rfl, earlier, offends⟩
  refine ⟨front ++ before, offender, after ++ back, ?_, ?_, offends⟩
  · simp only [List.append_assoc, List.cons_append]
  · intro node member
    rcases List.mem_append.1 member with inFront | inBefore
    · exact wellFormed node inFront
    · exact earlier node inBefore

/-! ## Outcomes -/

/-- What an outcome says about nodes that were read and about the set that they mean. -/
def Judged (nodes : List Description) (meaning : MemoryStore → Set EntityId) :
    Except QueryError Query → Prop
  | .ok query =>
      (∀ node ∈ nodes, node.WellFormed) ∧ ∀ store, query.members store = meaning store
  | .error error => FirstOffence nodes error

section Judged

variable {nodes front : List Description} {meaning result : MemoryStore → Set EntityId}
  {outcome : Except QueryError Query}

/-- Nodes are read behind others, and the query is used to build another one. -/
theorem Judged.map (judged : Judged nodes meaning outcome)
    (wellFormed : ∀ node ∈ front, node.WellFormed) {build : Query → Query}
    (means : ∀ query store, query.members store = meaning store →
      (build query).members store = result store) :
    Judged (front ++ nodes) result (outcome.map build) := by
  cases outcome with
  | error error =>
      have offence : FirstOffence (front ++ nodes ++ []) error :=
        FirstOffence.append judged wellFormed []
      rw [List.append_nil] at offence
      exact offence
  | ok query =>
      rcases judged with ⟨others, same⟩
      constructor
      · intro node member
        rcases List.mem_append.1 member with inFront | among
        · exact wellFormed node inFront
        · exact others node among
      · exact fun store => means query store (same store)

end Judged

/-! ## One node -/

section Node

variable {tag : UInt8} {params : List UInt32} {children : List Description} {kind : QueryKind}
  {left right : Description}

theorem nodes_leaf : (node tag params []).nodes = [node tag params []] := by
  simp only [nodes, listNodes]

theorem nodes_single : (node tag params [left]).nodes = [node tag params [left]] ++ left.nodes := by
  simp only [nodes, listNodes, List.append_nil, List.cons_append, List.nil_append]

theorem nodes_pair :
    (node tag params [left, right]).nodes =
      [node tag params [left, right]] ++ left.nodes ++ right.nodes := by
  simp only [nodes, listNodes, List.append_nil, List.cons_append, List.nil_append]

theorem nodes_head : (node tag params children).nodes =
    node tag params children :: listNodes children := by
  rw [nodes]

/-- A node with the counts of its kind is well-formed. -/
theorem wellFormed_of_ofTag (known : QueryKind.ofTag tag = .ok kind)
    (paramCount : params.length = kind.arity.1) (childCount : children.length = kind.arity.2) :
    ∀ other ∈ [node tag params children], other.WellFormed := by
  intro other member
  rw [List.mem_singleton.1 member]
  exact ⟨kind, QueryKind.tag_eq_of_ofTag known, paramCount, childCount⟩

/-- A node that no rule reads has other counts than its kind. -/
theorem miscounted
    (notEmpty : kind = .empty → params = [] → children = [] → False)
    (notEntities : ∀ typeId, kind = .allEntities → params = [typeId] → children = [] → False)
    (notWithLink : ∀ typeId linkId, kind = .entitiesWithLink → params = [typeId, linkId] →
      children = [] → False)
    (notLinked : ∀ typeId linkId target, kind = .filterLinks → params = [typeId, linkId] →
      children = [target] → False)
    (notUnion : ∀ left right, kind = .union → params = [] → children = [left, right] → False)
    (notInter : ∀ left right, kind = .intersect → params = [] → children = [left, right] → False) :
    ¬ (params.length = kind.arity.1 ∧ children.length = kind.arity.2) := by
  rintro ⟨paramCount, childCount⟩
  cases kind with
  | empty =>
      exact notEmpty rfl (List.length_eq_zero_iff.1 paramCount)
        (List.length_eq_zero_iff.1 childCount)
  | allEntities =>
      rcases List.length_eq_one_iff.1 paramCount with ⟨typeId, counted⟩
      exact notEntities typeId rfl counted (List.length_eq_zero_iff.1 childCount)
  | entitiesWithLink =>
      rcases List.length_eq_two.1 paramCount with ⟨typeId, linkId, counted⟩
      exact notWithLink typeId linkId rfl counted (List.length_eq_zero_iff.1 childCount)
  | filterLinks =>
      rcases List.length_eq_two.1 paramCount with ⟨typeId, linkId, counted⟩
      rcases List.length_eq_one_iff.1 childCount with ⟨target, only⟩
      exact notLinked typeId linkId target rfl counted only
  | union =>
      rcases List.length_eq_two.1 childCount with ⟨left, right, both⟩
      exact notUnion left right rfl (List.length_eq_zero_iff.1 paramCount) both
  | intersect =>
      rcases List.length_eq_two.1 childCount with ⟨left, right, both⟩
      exact notInter left right rfl (List.length_eq_zero_iff.1 paramCount) both

variable {meaning result : MemoryStore → Set EntityId} {leftQuery : Query}
  {outcome : Except QueryError Query}

theorem judged_leaf {query : Query}
    (wellFormed : ∀ other ∈ [node tag params []], other.WellFormed)
    (means : ∀ store, query.members store = result store) :
    Judged (node tag params []).nodes result (.ok query) := by
  rw [nodes_leaf]
  exact ⟨wellFormed, means⟩

theorem judged_pair_of_error {error : QueryError}
    (wellFormed : ∀ other ∈ [node tag params [left, right]], other.WellFormed)
    (leftJudged : Judged left.nodes meaning (.error error)) :
    Judged (node tag params [left, right]).nodes result (.error error) := by
  rw [nodes_pair]
  exact FirstOffence.append leftJudged wellFormed right.nodes

theorem judged_pair_of_ok {rightMeaning : MemoryStore → Set EntityId}
    (wellFormed : ∀ other ∈ [node tag params [left, right]], other.WellFormed)
    (leftJudged : Judged left.nodes meaning (.ok leftQuery))
    (rightJudged : Judged right.nodes rightMeaning outcome) {build : Query → Query}
    (means : ∀ rightQuery store, leftQuery.members store = meaning store →
      rightQuery.members store = rightMeaning store →
        (build rightQuery).members store = result store) :
    Judged (node tag params [left, right]).nodes result (outcome.map build) := by
  rcases leftJudged with ⟨leftNodes, leftMeans⟩
  rw [nodes_pair]
  apply rightJudged.map
  · intro other member
    rcases List.mem_append.1 member with self | inLeft
    · exact wellFormed other self
    · exact leftNodes other inLeft
  · intro rightQuery store rightMeans
    exact means rightQuery store (leftMeans store) rightMeans

end Node

/-- Every description is accepted with its meaning or refused for its first offending node. -/
theorem judged_ofDescription (description : Description) :
    Judged description.nodes (fun store => description.denoted store)
      (Query.ofDescription description) := by
  fun_induction Query.ofDescription description with
  | case1 tag params children error unknown =>
      rcases QueryKind.unknown_of_ofTag unknown with ⟨rfl, noKind⟩
      have offends : (node tag params children).Offends (.unknownKindTag tag) := .unknownTag noKind
      rw [nodes_head]
      exact .of_head offends _
  | case2 tag known =>
      apply judged_leaf (wellFormed_of_ofTag known rfl rfl)
      intro store
      simp only [denoted, known]
      rfl
  | case3 tag typeId known =>
      apply judged_leaf (wellFormed_of_ofTag known rfl rfl)
      intro store
      simp only [denoted, known]
      exact Set.ext fun _ => Query.mem_members_ofType
  | case4 tag typeId linkId known =>
      apply judged_leaf (wellFormed_of_ofTag known rfl rfl)
      intro store
      simp only [denoted, known]
      exact Set.ext fun _ => Query.mem_members_withLink
  | case5 tag typeId linkId target known targetJudged =>
      rw [nodes_single]
      apply targetJudged.map (wellFormed_of_ofTag known rfl rfl)
      intro query store means
      simp only [denoted, known]
      rw [← means]
      exact Set.ext fun _ => Query.mem_members_linkedTo
  | case6 tag left right error leftError known leftJudged
  | case8 tag left right error leftError known leftJudged =>
      rw [leftError] at leftJudged
      exact judged_pair_of_error (wellFormed_of_ofTag known rfl rfl) leftJudged
  | case7 tag left right leftQuery leftBuilt known leftJudged rightJudged =>
      rw [leftBuilt] at leftJudged
      apply judged_pair_of_ok (wellFormed_of_ofTag known rfl rfl) leftJudged rightJudged
      intro rightQuery store leftMeans rightMeans
      simp only [denoted, known]
      rw [Query.members_union, leftMeans, rightMeans]
  | case9 tag left right leftQuery leftBuilt known leftJudged rightJudged =>
      rw [leftBuilt] at leftJudged
      apply judged_pair_of_ok (wellFormed_of_ofTag known rfl rfl) leftJudged rightJudged
      intro rightQuery store leftMeans rightMeans
      simp only [denoted, known]
      rw [Query.members_inter, leftMeans, rightMeans]
  | case10 tag kind params children notEmpty notEntities notWithLink notLinked notUnion notInter
      known =>
      have offends : (node tag params children).Offends
          (Query.arityError kind tag params children) :=
        .wrongArity (QueryKind.tag_eq_of_ofTag known)
          (miscounted notEmpty notEntities notWithLink notLinked notUnion notInter)
      rw [nodes_head]
      exact .of_head offends _

end Description

/--
A description is accepted exactly if every node of it is well-formed, at every depth.  Any other is
refused with the error of the first node that is not.  An accepted description is rebuilt to a query
that answers, without the cache and on every store, the set that the description means.
-/
theorem Query.ofDescription_accepts (description : Description) :
    ((∃ query, ofDescription description = .ok query) ↔
      ∀ node ∈ description.nodes, node.WellFormed) ∧
    (∀ error, ofDescription description = .error error →
      ∃ before offender after, description.nodes = before ++ offender :: after ∧
        (∀ node ∈ before, node.WellFormed) ∧ offender.Offends error ∧
          error.failure.category = .unsupported ∧
          ((error.failure.origin = .handle ∧ ∀ kind : QueryKind, kind.tag ≠ offender.tag) ∨
            (error.failure.origin = .iterable ∧ ∃ kind : QueryKind, kind.tag = offender.tag ∧
              ¬ (offender.params.length = kind.arity.1 ∧
                offender.children.length = kind.arity.2)))) ∧
    ∀ query, ofDescription description = .ok query →
      ∀ store, ∃ ids : IdSet, (∀ id, id ∈ ids ↔ id ∈ description.denoted store) ∧
        query.Answers store ids := by
  have judged := description.judged_ofDescription
  constructor
  · constructor
    · rintro ⟨query, built⟩
      rw [built] at judged
      exact judged.1
    · intro wellFormed
      cases built : ofDescription description with
      | ok query => exact ⟨query, rfl⟩
      | error error =>
          rw [built] at judged
          rcases judged with ⟨before, offender, after, listed, _, offends⟩
          have among : offender ∈ description.nodes := by simp [listed]
          exact absurd (wellFormed offender among) offends.not_wellFormed
  · constructor
    · intro error refused
      rw [refused] at judged
      rcases judged with ⟨before, offender, after, listed, earlier, offends⟩
      refine ⟨before, offender, after, listed, earlier, offends, ?_⟩
      cases offends with
      | unknownTag unknown => exact ⟨rfl, .inl ⟨rfl, unknown⟩⟩
      | @wrongArity kind known miscounted => exact ⟨rfl, .inr ⟨rfl, kind, known, miscounted⟩⟩
    · intro query built store
      rw [built] at judged
      refine ⟨query.answer store, ?_, query.answers_answer store⟩
      intro id
      rw [mem_answer, judged.2 store]

/-- Below an operand that an empty one makes pointless, a node with an unknown tag is still refused,
and one that comes before it in the order of reading is refused first. -/
example :
    let pointless : Description := .node 5 [] [.node 0 [] [], .node 3 [7, 2] [.node 9 [] []]]
    Query.ofDescription pointless = .error (.unknownKindTag 9) ∧
      Query.ofDescription (.node 4 [] [.node 1 [] [], pointless]) =
        .error (.descriptionArity 1 1 0 0 0) := by
  decide +kernel

end EntityQuery
