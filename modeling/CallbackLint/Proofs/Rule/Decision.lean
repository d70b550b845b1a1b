import CallbackLint.Proofs.Rule.Run

namespace CallbackLint

open Rose

/-!
# The rule, said of the tree

The placements are tried in an order, along parent links and by names.  Here
each is a relation between nodes of the tree, and a call violates the rule when
it has a function around it and none of the five relations holds.  A check
reports exactly the calls that violate the rule, whatever the bodies of the
functions refer to.
-/

namespace Store

/-! ## The accepted places -/

/-- The call is directly below a `return`. -/
def IsReturnOperand (store : Store) (call : Nat) : Prop :=
  ∃ parent, store.parentOf? call = some parent ∧ store.kind? parent = some .returnStatement

/-- The body of the function is no block, and it is the call itself or stands
above the call, no higher than the function. -/
def IsInExpressionBody (store : Store) (function call : Nat) : Prop :=
  ∃ body, store.bodyOf? function = some body ∧ store.kind? body ≠ some .block ∧
    (body = call ∨ store.Above body call ∧ (body = function ∨ store.Above function body))

/-- The call is a statement of a program or block, and the next one there is a
`return`. -/
def IsFollowedByReturn (store : Store) (call : Nat) : Prop :=
  ∃ statement list next before after, store.parentOf? call = some statement ∧
    store.kind? statement = some .expressionStatement ∧
    store.parentOf? statement = some list ∧
    (store.kind? list = some .program ∨ store.kind? list = some .block) ∧
    store.childrenOf list = before ++ statement :: next :: after ∧
    store.kind? next = some .returnStatement

/-- The call is the last operand of an `&&` that is a statement. -/
def IsGuardedOperand (store : Store) (call : Nat) : Prop :=
  ∃ operation statement, store.parentOf? call = some operation ∧
    store.kind? operation = some .logicalAnd ∧
    (store.childrenOf operation).getLast? = some call ∧
    store.parentOf? operation = some statement ∧
    store.kind? statement = some .expressionStatement

/-- The call is the last statement of the function's body, which is a block. -/
def IsFunctionTail (store : Store) (function call : Nat) : Prop :=
  ∃ statement body, store.parentOf? call = some statement ∧
    store.kind? statement = some .expressionStatement ∧
    store.bodyOf? function = some body ∧ store.kind? body = some .block ∧
    store.parentOf? statement = some body ∧
    (store.childrenOf body).getLast? = some statement

/-- The call has a place where the function is bound to stop right afterwards. -/
def IsAccepted (store : Store) (function call : Nat) : Prop :=
  store.IsReturnOperand call ∨ store.IsInExpressionBody function call ∨
    store.IsFollowedByReturn call ∨ store.IsGuardedOperand call ∨
    store.IsFunctionTail function call

/-- A node is a call of one of the names, and has no accepted place in the
innermost function around it. -/
def Violates (store : Store) (names : List String) (call : Nat) : Prop :=
  (∃ node callee, store.node? call = some node ∧ node.kind = .call ∧
    node.callee = some callee ∧ callee ∈ names) ∧
  ∃ function, store.NearestFunction function call ∧ ¬ store.IsAccepted function call

/-! ## Each test decides its relation -/

variable {store : Store} {shape : Rose Nat} {call function : Nat}

theorem parentOfKind?_eq_some_iff {kind : Kind} {name parent : Nat} :
    store.parentOfKind? kind name = some parent ↔
      store.parentOf? name = some parent ∧ store.kind? parent = some kind := by
  rw [parentOfKind?, Option.filter_eq_some_iff, beq_iff_eq]

theorem returnOperand_iff :
    (store.parentOfKind? .returnStatement call).isSome = true ↔ store.IsReturnOperand call := by
  rw [Option.isSome_iff_exists]
  exact exists_congr fun parent => parentOfKind?_eq_some_iff

theorem isStatementList_iff {list : Nat} :
    ((store.kind? list).map Kind.isStatementList).getD false = true ↔
      store.kind? list = some .program ∨ store.kind? list = some .block := by
  cases store.kind? list with
  | none => simp only [Option.map_none, Option.getD_none, reduceCtorEq, or_self]
  | some kind =>
      cases kind <;>
        simp only [Option.map_some, Option.getD_some, Kind.isStatementList, Option.some.injEq,
          reduceCtorEq, or_self, or_true, true_or]

theorem statementListOf?_eq_some_iff {list : Nat} :
    store.statementListOf? call = some list ↔
      ∃ statement, store.parentOf? call = some statement ∧
        store.kind? statement = some .expressionStatement ∧
        store.parentOf? statement = some list ∧
        (store.kind? list = some .program ∨ store.kind? list = some .block) := by
  rw [statementListOf?, Option.bind_eq_some_iff]
  apply exists_congr
  intro statement
  rw [statementOf?, parentOfKind?_eq_some_iff, Option.filter_eq_some_iff, isStatementList_iff,
    and_assoc]

theorem followingStatement?_eq {statement list : Nat}
    (link : store.parentOf? call = some statement)
    (kind : store.kind? statement = some .expressionStatement)
    (outer : store.parentOf? statement = some list)
    (isList : store.kind? list = some .program ∨ store.kind? list = some .block) :
    store.followingStatement? call = store.nextSibling? statement := by
  have listEq := statementListOf?_eq_some_iff.mpr ⟨statement, link, kind, outer, isList⟩
  have statementEq := parentOfKind?_eq_some_iff.mpr ⟨link, kind⟩
  rw [followingStatement?, listEq, Option.bind_some, statementOf?, statementEq, Option.bind_some]

theorem followedByReturn_iff (holds : store.Holds shape) (member : call ∈ shape.preorder) :
    ((store.followingStatement? call).bind store.kind? == some .returnStatement) = true ↔
      store.IsFollowedByReturn call := by
  rw [beq_iff_eq, Option.bind_eq_some_iff]
  constructor
  · rintro ⟨next, following, isReturn⟩
    have inList := following
    rw [followingStatement?, Option.bind_eq_some_iff] at inList
    rcases inList with ⟨list, listEq, _⟩
    rcases statementListOf?_eq_some_iff.mp listEq with ⟨statement, link, kind, outer, isList⟩
    rw [followingStatement?_eq link kind outer isList,
      holds.nextSibling?_eq_some_iff (holds.parent_mem member link) outer] at following
    rcases following with ⟨before, after, split⟩
    exact ⟨statement, list, next, before, after, link, kind, outer, isList, split, isReturn⟩
  · rintro ⟨statement, list, next, before, after, link, kind, outer, isList, split, isReturn⟩
    refine ⟨next, ?_, isReturn⟩
    rw [followingStatement?_eq link kind outer isList]
    exact (holds.nextSibling?_eq_some_iff (holds.parent_mem member link) outer).mpr
      ⟨before, after, split⟩

theorem guardedOperand_iff : store.isGuarded call = true ↔ store.IsGuardedOperand call := by
  rw [isGuarded]
  cases operand : store.parentOfKind? .logicalAnd call with
  | none =>
      constructor
      · intro impossible
        cases impossible
      · rintro ⟨operation, statement, link, kind, _⟩
        rw [parentOfKind?_eq_some_iff.mpr ⟨link, kind⟩] at operand
        cases operand
  | some operation =>
      have found := parentOfKind?_eq_some_iff.mp operand
      rw [Bool.and_eq_true, beq_iff_eq, Option.isSome_iff_exists]
      constructor
      · rintro ⟨last, statement, outer⟩
        rw [parentOfKind?_eq_some_iff] at outer
        exact ⟨operation, statement, found.1, found.2, last, outer⟩
      · rintro ⟨other, statement, link, _, last, outer⟩
        rw [found.1, Option.some.injEq] at link
        rw [← link] at last outer
        exact ⟨last, statement, parentOfKind?_eq_some_iff.mpr outer⟩

theorem functionTail_iff (function : Nat) (holds : store.Holds shape)
    (member : call ∈ shape.preorder) :
    ((store.statementListOf? call).isSome &&
      store.statementListOf? call == store.bodyBlock? function &&
      (store.followingStatement? call).isNone) = true ↔ store.IsFunctionTail function call := by
  have block : ∀ body, store.bodyBlock? function = some body ↔
      store.bodyOf? function = some body ∧ store.kind? body = some .block := by
    intro body
    rw [bodyBlock?, Option.filter_eq_some_iff, beq_iff_eq]
  rw [Bool.and_eq_true, Bool.and_eq_true, beq_iff_eq, Option.isNone_iff_eq_none,
    Option.isSome_iff_exists]
  constructor
  · rintro ⟨⟨⟨list, listEq⟩, same⟩, last⟩
    rcases statementListOf?_eq_some_iff.mp listEq with ⟨statement, link, kind, outer, isList⟩
    rw [listEq] at same
    have body := (block list).mp same.symm
    rw [followingStatement?_eq link kind outer isList,
      holds.nextSibling?_eq_none_iff (holds.parent_mem member link) outer] at last
    exact ⟨statement, list, link, kind, body.1, body.2, outer, last⟩
  · rintro ⟨statement, body, link, kind, bodyEq, isBlock, outer, last⟩
    have listEq := statementListOf?_eq_some_iff.mpr
      ⟨statement, link, kind, outer, Or.inr isBlock⟩
    refine ⟨⟨⟨body, listEq⟩, ?_⟩, ?_⟩
    · rw [listEq, (block body).mpr ⟨bodyEq, isBlock⟩]
    · rw [followingStatement?_eq link kind outer (Or.inr isBlock)]
      exact (holds.nextSibling?_eq_none_iff (holds.parent_mem member link) outer).mpr last

/-- A search that stops at its bound sees what comes up to the bound. -/
theorem reachedWithin_append {target bound : Nat} {inner outer : List Nat}
    (absent : bound ∉ inner) :
    reachedWithin target bound (inner ++ bound :: outer) = true ↔
      target ∈ inner ∨ target = bound := by
  induction inner with
  | nil =>
      rw [List.nil_append, reachedWithin, bne_self_eq_false, Bool.false_and, Bool.or_false,
        beq_iff_eq]
      constructor
      · exact fun same => Or.inr same.symm
      · rintro (impossible | same)
        · cases impossible
        · exact same.symm
  | cons first inner inductionHypothesis =>
      have different : (first != bound) = true := bne_iff_ne.mpr fun same =>
        absent (same ▸ List.mem_cons_self)
      rw [List.cons_append, reachedWithin, different, Bool.true_and, Bool.or_eq_true, beq_iff_eq,
        inductionHypothesis fun member => absent (List.mem_cons_of_mem _ member), List.mem_cons,
        or_assoc, eq_comm]

/-- Between a call and the innermost function around it are just the nodes that
come before the function on the way up. -/
theorem Holds.within_iff {context : Context Nat} {below : List (Rose Nat)}
    (holds : store.Holds (fill context (.node call below)))
    (nearest : store.NearestFunction function call) {inner outer : List Nat}
    (split : valuesAbove context = inner ++ function :: outer) (body : Nat) :
    (store.Above body call ∧ (body = function ∨ store.Above function body)) ↔
      body ∈ inner ∨ body = function := by
  have ordered := holds.pairwise_above
  have reached : ∀ {body}, store.Above body call ↔ body ∈ valuesAbove context := holds.above_iff
  have acyclic : ¬ store.Above function function := by
    have inTree : function ∈ (fill context (.node call below)).preorder := by
      rw [preorder_fill, List.append_assoc]
      exact List.mem_append_left _ (valuesAbove_subset_preorderBefore context
        (reached.mp nearest.above))
    exact holds.not_above_self inTree
  rw [split] at ordered reached
  constructor
  · rintro ⟨above, low⟩
    rcases List.mem_append.mp (reached.mp above) with found | later
    · exact Or.inl found
    · rcases List.mem_cons.mp later with same | further
      · exact Or.inr same
      · have fromFunction := (List.pairwise_append.mp ordered).2.1
        have higher := (List.pairwise_cons.mp fromFunction).1 body further
        rcases low with same | lower
        · exact Or.inr same
        · exact False.elim (acyclic (lower.trans higher))
  · rintro (found | same)
    · have lower := (List.pairwise_append.mp ordered).2.2 body found function List.mem_cons_self
      exact ⟨reached.mpr (List.mem_append_left _ found), Or.inr lower⟩
    · rw [same]
      exact ⟨nearest.above, Or.inl rfl⟩

theorem expressionBody_iff (holds : store.Holds shape) (member : call ∈ shape.preorder)
    (nearest : store.NearestFunction function call) :
    store.inExpressionBody function call = true ↔ store.IsInExpressionBody function call := by
  rcases exists_place_of_mem member with ⟨context, below, place⟩
  rw [place] at holds
  have reached : function ∈ valuesAbove context := holds.above_iff.mp nearest.above
  rcases List.append_of_mem reached with ⟨inner, outer, split⟩
  have absent : function ∉ inner := by
    intro found
    have twice := holds.distinct_above
    rw [split] at twice
    exact (List.nodup_append.mp twice).2.2 _ found _ List.mem_cons_self rfl
  have ancestors := holds.ancestors_eq
  rw [value_node, split] at ancestors
  rw [inExpressionBody]
  cases bodyEq : store.bodyOf? function with
  | none =>
      constructor
      · intro impossible
        cases impossible
      · rintro ⟨body, impossible, _⟩
        rw [bodyEq] at impossible
        cases impossible
  | some body =>
      rw [Bool.and_eq_true, Bool.or_eq_true, bne_iff_ne, beq_iff_eq, ancestors,
        reachedWithin_append absent, ← holds.within_iff nearest split body]
      constructor
      · rintro ⟨noBlock, found⟩
        exact ⟨body, bodyEq, noBlock, found.imp Eq.symm id⟩
      · rintro ⟨other, otherEq, noBlock, found⟩
        rw [bodyEq, Option.some.injEq] at otherEq
        rw [← otherEq] at noBlock found
        exact ⟨noBlock, found.imp Eq.symm id⟩

/-- A call violates the rule in its innermost function when it has none of the
accepted places. -/
theorem verdict_placementOf (holds : store.Holds shape) (member : call ∈ shape.preorder)
    {frame : Frame} (nearest : store.NearestFunction frame.function call) :
    (store.placementOf (some frame) call).verdict = .violating ↔
      ¬ store.IsAccepted frame.function call := by
  have expressionBody := expressionBody_iff holds member nearest
  have followed := followedByReturn_iff holds member
  have tail := functionTail_iff frame.function holds member
  rw [IsAccepted, ← returnOperand_iff, ← expressionBody, ← followed, ← guardedOperand_iff, ← tail]
  exact Placement.verdict_of_tests _ _ _ _ _

/-! ## What a check reports -/

/-- Outside every function a call is accepted; inside, the innermost function
decides. -/
theorem verdict_around {context : Context Nat} {below : List (Rose Nat)}
    (holds : store.Holds (fill context (.node call below))) {frame? : Option Frame}
    (current : frame?.map Frame.function = (store.functionsAbove context).head?) :
    (store.placementOf frame? call).verdict = .violating ↔
      ∃ function, store.NearestFunction function call ∧ ¬ store.IsAccepted function call := by
  have nearestEq := holds.nearestFunction_iff
  rw [value_node, ← current] at nearestEq
  have member : call ∈ (fill context (.node call below)).preorder := by
    rw [preorder_fill, preorder]
    exact List.mem_append_left _ (List.mem_append_right _ List.mem_cons_self)
  cases frame? with
  | none =>
      constructor
      · intro impossible
        cases impossible
      · rintro ⟨function, nearest, _⟩
        cases (nearestEq function).mp nearest
  | some frame =>
      have nearest := (nearestEq frame.function).mpr rfl
      rw [verdict_placementOf holds member nearest]
      constructor
      · intro refused
        exact ⟨frame.function, nearest, refused⟩
      · rintro ⟨function, other, refused⟩
        have same := (nearestEq function).mp other
        rw [Option.map_some, Option.some.injEq] at same
        exact same ▸ refused

/-- What a node leads to is a diagnostic exactly if the node violates the rule. -/
theorem report?_sightingAt (holds : store.Holds shape) (member : call ∈ shape.preorder)
    (names : List String) (path : Option String) :
    ∃ node, store.node? call = some node ∧
      ((store.Violates names call ∧ (store.sightingAt {} call).bind (Sighting.report? names path) =
          some (.missingReturn path node.position)) ∨
        (¬ store.Violates names call ∧
          (store.sightingAt {} call).bind (Sighting.report? names path) = none)) := by
  rcases exists_place_of_mem member with ⟨context, below, place⟩
  rw [place] at holds
  rcases holds.exists_node with ⟨node, found, _⟩
  refine ⟨node, found, ?_⟩
  have frame := Scopes.current?_enterEach {} (store.functionsAbove context)
  rw [show (({} : Scopes).current?.map Frame.function) = none from rfl, Option.or_none] at frame
  have seen := Inspection.sighting?_eq_sightingAt {} holds
  rw [value_node, sighting?, found, Option.bind_some] at seen
  have violates : store.Violates names call ↔
      (node.kind = .call ∧ ∃ callee, node.callee = some callee ∧ callee ∈ names) ∧
        (store.placementOf (({} : Scopes).enterEach (store.functionsAbove context)).current?
          call).verdict = .violating := by
    rw [verdict_around holds frame]
    apply and_congr_left
    intro _
    constructor
    · rintro ⟨other, callee, otherFound, isCall, named, listed⟩
      rw [found, Option.some.injEq] at otherFound
      rw [← otherFound] at isCall named
      exact ⟨isCall, callee, named, listed⟩
    · rintro ⟨isCall, callee, named, listed⟩
      exact ⟨node, callee, found, isCall, named, listed⟩
  rw [← seen, Sighting.bind_report?, violates]
  split_ifs with reported
  · exact Or.inl ⟨reported, rfl⟩
  · exact Or.inr ⟨reported, rfl⟩

/-- Where each chosen element has an output and no other element has one, the
outputs are those of the chosen elements, one each and in order. -/
theorem forall₂_filterMap_filter {α δ : Type} {output : α → Option δ} {chosen : α → Prop}
    [DecidablePred chosen] {fits : δ → α → Prop} {elements : List α}
    (each : ∀ element ∈ elements,
      (chosen element ∧ ∃ result, output element = some result ∧ fits result element) ∨
        (¬ chosen element ∧ output element = none)) :
    List.Forall₂ fits (elements.filterMap output)
      (elements.filter fun element => decide (chosen element)) := by
  induction elements with
  | nil => exact List.Forall₂.nil
  | cons first rest inductionHypothesis =>
      have later := inductionHypothesis fun element member =>
        each element (List.mem_cons_of_mem _ member)
      rcases each first List.mem_cons_self with ⟨isChosen, result, found, fit⟩ | ⟨refused, none⟩
      · rw [List.filterMap_cons_some found, List.filter_cons, decide_eq_true isChosen, if_pos rfl]
        exact List.Forall₂.cons fit later
      · rw [List.filterMap_cons_none none, List.filter_cons, decide_eq_false refused,
          if_neg Bool.false_ne_true]
        exact later

open Classical in
/-- A check of a tree reports exactly the calls that violate the rule, in
preorder, each once and at its position. -/
theorem check_reports_violations (store : Store) (shape : Rose Nat) (holds : store.Holds shape)
    (names : List String) (path : Option String) :
    List.Forall₂
      (fun diagnostic call => ∃ node, store.node? call = some node ∧
        diagnostic = .missingReturn path node.position)
      (store.check names path shape.value).diagnostics
      (shape.preorder.filter fun call => decide (store.Violates names call)) := by
  rw [check_eq holds, List.filterMap_filterMap]
  apply forall₂_filterMap_filter
  intro call member
  rcases report?_sightingAt holds member names path with
    ⟨node, found, ⟨violates, report⟩ | ⟨accepted, none⟩⟩
  · exact Or.inl ⟨violates, _, report, node, found, rfl⟩
  · exact Or.inr ⟨accepted, none⟩

/-- A function of two statements whose body is said to be the call in the first
of them.  The last statement is then no tail. -/
def distantBody : Store where
  nodes := #[
    { kind := .program, position := ⟨1, 1⟩, children := [1] },
    { kind := .function, position := ⟨1, 1⟩, children := [2], parent := some 0, body := some 5 },
    { kind := .block, position := ⟨1, 3⟩, children := [3, 4], parent := some 1 },
    { kind := .expressionStatement, position := ⟨2, 1⟩, children := [5], parent := some 2 },
    { kind := .expressionStatement, position := ⟨3, 1⟩, children := [6], parent := some 2 },
    { kind := .call, position := ⟨2, 1⟩, callee := some "callback", parent := some 3 },
    { kind := .call, position := ⟨3, 1⟩, callee := some "callback", parent := some 4 }]

def distantNames : Rose Nat :=
  node 0 [node 1 [node 2 [node 3 [node 5 []], node 4 [node 6 []]]]]

open Classical in
theorem check_reports_distantBody :
    distantBody.Holds distantNames ∧
      List.Forall₂
        (fun diagnostic call => ∃ node, distantBody.node? call = some node ∧
          diagnostic = .missingReturn none node.position)
        (distantBody.check ["callback"] none distantNames.value).diagnostics
        (distantNames.preorder.filter fun call =>
          decide (distantBody.Violates ["callback"] call)) :=
  ⟨by decide, check_reports_violations distantBody distantNames (by decide) ["callback"] none⟩

end Store

end CallbackLint
