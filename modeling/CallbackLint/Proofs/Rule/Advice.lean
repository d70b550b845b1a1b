import CallbackLint.Proofs.Rule.Decision
import CallbackLint.Proofs.Syntax.Editing

namespace CallbackLint

open Rose

/-!
# Following the advice

The rule asks for a `return` at an unguarded call.  A statement that consists of a
call can be turned into a `return` of the call, or a `return` can be put after it.
Neither edit makes the rule report a call that it did not report before.

The accepted places of a call are read off its surroundings.  The first edit takes
away one expression statement and adds one `return`; what can read that are the call
itself, the calls of the statement before it and nothing else, since a call has no
call among its own parents and grandparents that a test asks for.  The second edit
adds a `return` that only the statement before it has as its next sibling.
-/

/-- The steps of a traversal do not change what an inspection looks for. -/
theorem Inspection.settings_foldl (store : Store) (inspection : Inspection)
    (steps : List (Visit Nat)) :
    (steps.foldl (step store) inspection).names = inspection.names ∧
      (steps.foldl (step store) inspection).path = inspection.path := by
  induction steps generalizing inspection with
  | nil => exact ⟨rfl, rfl⟩
  | cons visit steps inductionHypothesis =>
      have later := inductionHypothesis (step store inspection visit)
      have here : (step store inspection visit).names = inspection.names ∧
          (step store inspection visit).path = inspection.path := by
        cases visit with
        | enter name => rw [step, enter_eq]; exact ⟨rfl, rfl⟩
        | leave name => rw [step, leave_eq]; exact ⟨rfl, rfl⟩
      exact ⟨later.1.trans here.1, later.2.trans here.2⟩

namespace Store

variable {store other : Store} {shape : Rose Nat}

/-! ## What is reported -/

/-- A check of the tree below `root` adds a diagnostic when it enters `call`. -/
def Reported (store : Store) (names : List String) (root call : Nat) : Prop :=
  ∃ before after, (store.outline root).walk = before ++ .enter call :: after ∧
    ((before.foldl (Inspection.step store) { names }).enter store call).diagnostics ≠
      (before.foldl (Inspection.step store) { names }).diagnostics

open Classical in
/-- The calls that a check of the tree below `root` reports, in its order. -/
noncomputable def reportedCalls (store : Store) (names : List String) (root : Nat) : List Nat :=
  (store.outline root).preorder.filter fun call => decide (store.Reported names root call)

/-- When a node is entered, a diagnostic is added exactly if it violates the rule. -/
theorem enter_reports_iff (holds : store.Holds shape) (names : List String)
    {before after : List (Visit Nat)} {call : Nat}
    (moment : shape.walk = before ++ .enter call :: after) :
    ((before.foldl (Inspection.step store) { names }).enter store call).diagnostics ≠
        (before.foldl (Inspection.step store) { names }).diagnostics ↔
      store.Violates names call := by
  rw [walk_eq_visits] at moment
  rcases exists_place_of_enter moment with ⟨context, below, place, beforeEq, _⟩
  rw [place] at holds
  have member : call ∈ (fill context (.node call below)).preorder :=
    way_subset_preorder context _ List.mem_cons_self
  have frames := Inspection.scopes_visitsBefore store { names } context
  have settings := Inspection.settings_foldl store { names } before
  have seen := Inspection.sighting?_eq_sightingAt {} holds
  rw [← beforeEq] at frames
  rw [value_node] at seen
  rw [Inspection.enter_eq, frames, seen]
  change _ ++ _ ≠ _ ↔ _
  rw [settings.1, settings.2, ne_eq, List.append_right_eq_self,
    Sighting.filterMap_toList]
  rcases report?_sightingAt holds member names none with
    ⟨node, _, ⟨violates, report⟩ | ⟨accepted, report⟩⟩
  · rw [report]
    exact iff_of_true (List.cons_ne_nil _ _) violates
  · rw [report]
    exact iff_of_false (not_not_intro rfl) accepted

/-- The reported calls are those that violate the rule. -/
theorem reported_iff (holds : store.Holds shape) (names : List String) {call : Nat}
    (member : call ∈ shape.preorder) :
    store.Reported names shape.value call ↔ store.Violates names call := by
  rw [Reported, holds.outline_eq]
  constructor
  · rintro ⟨before, after, moment, reports⟩
    exact (enter_reports_iff holds names moment).mp reports
  · intro violates
    have entered := enter_mem_visits member
    rw [← walk_eq_visits] at entered
    rcases List.append_of_mem entered with ⟨before, after, moment⟩
    exact ⟨before, after, moment, (enter_reports_iff holds names moment).mpr violates⟩

open Classical in
theorem reportedCalls_eq (holds : store.Holds shape) (names : List String) :
    store.reportedCalls names shape.value =
      shape.preorder.filter fun call => decide (store.Violates names call) := by
  rw [reportedCalls, holds.outline_eq]
  apply List.filter_congr
  intro call member
  exact decide_eq_decide.mpr (reported_iff holds names member)

/-- Nodes above a node of the tree are in the tree. -/
theorem Holds.above_mem (holds : store.Holds shape) {upper lower : Nat}
    (member : lower ∈ shape.preorder) (above : store.Above upper lower) :
    upper ∈ shape.preorder := by
  rcases exists_place_of_mem member with ⟨context, below, place⟩
  rw [place] at holds ⊢
  exact way_subset_preorder context _ (List.mem_cons_of_mem _ (holds.above_iff.mp above))

theorem Holds.followingStatement?_mem (holds : store.Holds shape) {name next : Nat}
    (member : name ∈ shape.preorder) (found : store.followingStatement? name = some next) :
    next ∈ shape.preorder := by
  have inList := found
  rw [followingStatement?, Option.bind_eq_some_iff] at inList
  rcases inList with ⟨list, listEq, _⟩
  rcases statementListOf?_eq_some_iff.mp listEq with ⟨statement, link, kind, outer, isList⟩
  have inTree := holds.parent_mem member link
  rw [followingStatement?_eq link kind outer isList,
    holds.nextSibling?_eq_some_iff inTree outer] at found
  rcases found with ⟨before, after, split⟩
  apply holds.child_mem (holds.parent_mem inTree outer)
  rw [split]
  exact List.mem_append_right _ (List.mem_cons_of_mem _ List.mem_cons_self)

/-! ## What a verdict does not read -/

/-- Two stores differ in lists of children and in one node, which is in neither of them
anything but a statement. -/
structure DiffersIn (changed : Nat) (store other : Store) (shape : Rose Nat) : Prop where
  agree : AgreeExcept changed store other
  kinds : ∀ kind : Kind, kind ≠ .expressionStatement → kind ≠ .returnStatement →
    store.kind? changed ≠ some kind ∧ other.kind? changed ≠ some kind
  parents : ∀ name ∈ shape.preorder, other.parentOf? name = store.parentOf? name

namespace DiffersIn

variable {changed : Nat} {name function : Nat}

theorem kind?_iff (differs : DiffersIn changed store other shape) (name : Nat) (kind : Kind)
    (noStatement : kind ≠ .expressionStatement) (noReturn : kind ≠ .returnStatement) :
    other.kind? name = some kind ↔ store.kind? name = some kind := by
  by_cases same : name = changed
  · have kinds := differs.kinds kind noStatement noReturn
    rw [same]
    exact iff_of_false kinds.2 kinds.1
  · rw [differs.agree.kind?_eq same]

theorem call_iff (differs : DiffersIn changed store other shape) (names : List String)
    (name : Nat) :
    (∃ node callee, other.node? name = some node ∧ node.kind = .call ∧
        node.callee = some callee ∧ callee ∈ names) ↔
      ∃ node callee, store.node? name = some node ∧ node.kind = .call ∧
        node.callee = some callee ∧ callee ∈ names := by
  by_cases same : name = changed
  · have kinds := differs.kinds .call (by decide) (by decide)
    rw [same]
    apply iff_of_false
    · rintro ⟨node, _, found, isCall, _⟩
      exact kinds.2 (by rw [kind?, found, Option.map_some, isCall])
    · rintro ⟨node, _, found, isCall, _⟩
      exact kinds.1 (by rw [kind?, found, Option.map_some, isCall])
  · exact differs.agree.exists_call_iff same names

theorem bodyOf?_eq (differs : DiffersIn changed store other shape)
    (isFunction : store.kind? function = some .function) :
    other.bodyOf? function = store.bodyOf? function := by
  apply differs.agree.bodyOf?_eq
  intro same
  exact (differs.kinds .function (by decide) (by decide)).1 (same ▸ isFunction)

/-- Chains of parents stay in the tree, so they are the same. -/
theorem above_iff (differs : DiffersIn changed store other shape) (holds : store.Holds shape)
    (upper : Nat) {lower : Nat} (member : lower ∈ shape.preorder) :
    other.Above upper lower ↔ store.Above upper lower := by
  constructor
  · intro above
    induction above with
    | single link =>
        rw [differs.parents _ member] at link
        exact Relation.TransGen.single link
    | tail _ link inductionHypothesis =>
        rw [differs.parents _ member] at link
        exact Relation.TransGen.tail (inductionHypothesis (holds.parent_mem member link)) link
  · intro above
    induction above with
    | single link =>
        rw [← differs.parents _ member] at link
        exact Relation.TransGen.single link
    | tail _ link inductionHypothesis =>
        have higher := inductionHypothesis (holds.parent_mem member link)
        rw [← differs.parents _ member] at link
        exact Relation.TransGen.tail higher link

theorem nearestFunction_iff (differs : DiffersIn changed store other shape)
    (holds : store.Holds shape) (member : name ∈ shape.preorder) :
    other.NearestFunction function name ↔ store.NearestFunction function name := by
  have above := fun upper => differs.above_iff holds upper member
  have isFunction := fun name => differs.kind?_iff name .function (by decide) (by decide)
  constructor
  · rintro ⟨found, kind, nearest⟩
    rw [above] at found
    have higher := fun upper => differs.above_iff holds upper (holds.above_mem member found)
    refine ⟨found, (isFunction function).mp kind, ?_⟩
    intro upper aboveName upperKind
    rw [← higher]
    exact nearest upper ((above upper).mpr aboveName) ((isFunction upper).mpr upperKind)
  · rintro ⟨found, kind, nearest⟩
    have higher := fun upper => differs.above_iff holds upper (holds.above_mem member found)
    refine ⟨(above function).mpr found, (isFunction function).mpr kind, ?_⟩
    intro upper aboveName upperKind
    rw [higher]
    exact nearest upper ((above upper).mp aboveName) ((isFunction upper).mp upperKind)

/-- A body counts for a call only if it is the call or above it. -/
theorem inExpressionBody_iff (differs : DiffersIn changed store other shape)
    (holds : store.Holds shape) (member : name ∈ shape.preorder)
    (nearest : store.NearestFunction function name) :
    other.IsInExpressionBody function name ↔ store.IsInExpressionBody function name := by
  have above := fun upper => differs.above_iff holds upper member
  apply exists_congr
  intro body
  rw [differs.bodyOf?_eq nearest.isFunction, ne_eq, ne_eq,
    differs.kind?_iff body _ (by decide) (by decide), above]
  apply and_congr_right
  intro _
  apply and_congr_right
  intro _
  apply or_congr_right
  apply and_congr_right
  intro found
  rw [differs.above_iff holds _ (holds.above_mem member found)]

/-- A call violates the rule in both stores, or the stores differ in whether its place is
accepted. -/
theorem violates_iff (differs : DiffersIn changed store other shape) (holds : store.Holds shape)
    (member : name ∈ shape.preorder) (names : List String) {freed : Prop}
    (accepted : ∀ function, store.NearestFunction function name →
      (other.IsAccepted function name ↔ store.IsAccepted function name ∨ freed)) :
    other.Violates names name ↔ store.Violates names name ∧ ¬ freed := by
  rw [Violates, Violates, differs.call_iff, and_assoc]
  apply and_congr_right
  intro _
  simp only [differs.nearestFunction_iff holds member]
  constructor
  · rintro ⟨function, nearest, refused⟩
    rw [accepted function nearest, not_or] at refused
    exact ⟨⟨function, nearest, refused.1⟩, refused.2⟩
  · rintro ⟨⟨function, nearest, refused⟩, kept⟩
    refine ⟨function, nearest, ?_⟩
    rw [accepted function nearest, not_or]
    exact ⟨refused, kept⟩

end DiffersIn

/-! ## A statement that is a call -/

/-- A statement of a program or block that consists of a call. -/
structure IsCallStatement (store : Store) (statement call : Nat) : Prop where
  isStatement : store.kind? statement = some .expressionStatement
  consists : store.childrenOf statement = [call]
  isCall : store.kind? call = some .call
  listed : ∃ list, store.parentOf? statement = some list ∧
    (store.kind? list = some .program ∨ store.kind? list = some .block)

/-- A call is directly below the expression statement right before a statement. -/
def IsCallBefore (store : Store) (statement call : Nat) : Prop :=
  ∃ list previous before after, store.parentOf? statement = some list ∧
    store.childrenOf list = before ++ previous :: statement :: after ∧
    store.kind? previous = some .expressionStatement ∧ call ∈ store.childrenOf previous

section Edits

variable {statement call name function : Nat} (holds : store.Holds shape)
  (single : store.IsCallStatement statement call)

include holds single

theorem parentOf?_call (inTree : statement ∈ shape.preorder) :
    store.parentOf? call = some statement := by
  apply holds.parentOf?_of_child inTree
  rw [single.consists]
  exact List.mem_singleton_self call

/-- Nothing but the call is below the statement. -/
theorem eq_call_of_parentOf? (member : name ∈ shape.preorder)
    (link : store.parentOf? name = some statement) : name = call := by
  have child := holds.mem_childrenOf member link
  rw [single.consists] at child
  exact List.mem_singleton.mp child

/-! ## The statement becomes a `return` -/

omit holds in
theorem differsIn_turnIntoReturn :
    DiffersIn statement store (store.turnIntoReturn statement) shape where
  agree := agreeExcept_turnIntoReturn store statement
  kinds := by
    intro kind noStatement noReturn
    rw [kind?_turnIntoReturn single.isStatement, single.isStatement, ne_eq, ne_eq,
      Option.some.injEq, Option.some.injEq]
    exact ⟨Ne.symm noStatement, Ne.symm noReturn⟩
  parents := fun name _ => parentOf?_turnIntoReturn store statement name

omit holds in
/-- The other expression statements are the same as before. -/
theorem isStatement_turnIntoReturn_iff (name : Nat) :
    (store.turnIntoReturn statement).kind? name = some .expressionStatement ↔
      store.kind? name = some .expressionStatement ∧ name ≠ statement := by
  by_cases same : name = statement
  · rw [same, kind?_turnIntoReturn single.isStatement]
    exact iff_of_false (by decide) fun impossible => impossible.2 rfl
  · rw [(agreeExcept_turnIntoReturn store statement).kind?_eq same]
    exact (and_iff_left same).symm

omit holds in
/-- There is one `return` more than before. -/
theorem isReturn_turnIntoReturn_iff (name : Nat) :
    (store.turnIntoReturn statement).kind? name = some .returnStatement ↔
      store.kind? name = some .returnStatement ∨ name = statement := by
  by_cases same : name = statement
  · rw [same, kind?_turnIntoReturn single.isStatement]
    exact iff_of_true rfl (Or.inr rfl)
  · rw [(agreeExcept_turnIntoReturn store statement).kind?_eq same]
    exact (or_iff_left same).symm

theorem returnOperand_turnIntoReturn (inTree : statement ∈ shape.preorder)
    (member : name ∈ shape.preorder) :
    (store.turnIntoReturn statement).IsReturnOperand name ↔
      store.IsReturnOperand name ∨ name = call := by
  simp only [IsReturnOperand, parentOf?_turnIntoReturn, isReturn_turnIntoReturn_iff single]
  constructor
  · rintro ⟨parent, link, isReturn | same⟩
    · exact Or.inl ⟨parent, link, isReturn⟩
    · exact Or.inr (eq_call_of_parentOf? holds single member (same ▸ link))
  · rintro (⟨parent, link, isReturn⟩ | same)
    · exact ⟨parent, link, Or.inl isReturn⟩
    · exact ⟨statement, same ▸ parentOf?_call holds single inTree, Or.inr rfl⟩

/-- A call is now right before a `return` if it was, or if it is right before the
statement. -/
theorem followedByReturn_turnIntoReturn (inTree : statement ∈ shape.preorder)
    (member : name ∈ shape.preorder) (otherCall : name ≠ call) :
    (store.turnIntoReturn statement).IsFollowedByReturn name ↔
      store.IsFollowedByReturn name ∨ store.IsCallBefore statement name := by
  have differs : DiffersIn statement store (store.turnIntoReturn statement) shape :=
    differsIn_turnIntoReturn single
  have program := fun list => differs.kind?_iff list .program (by decide) (by decide)
  have block := fun list => differs.kind?_iff list .block (by decide) (by decide)
  simp only [IsFollowedByReturn, parentOf?_turnIntoReturn, childrenOf_turnIntoReturn,
    isStatement_turnIntoReturn_iff single, isReturn_turnIntoReturn_iff single, program, block]
  constructor
  · rintro ⟨own, list, next, before, after, link, ⟨kind, _⟩, outer, isList, split, isReturn | same⟩
    · exact Or.inl ⟨own, list, next, before, after, link, kind, outer, isList, split, isReturn⟩
    · -- The statement is the next one, so the call is right before it.
      rw [same] at split
      have inList : list ∈ shape.preorder :=
        holds.parent_mem (holds.parent_mem member link) outer
      have listed : statement ∈ store.childrenOf list := by
        rw [split]
        exact List.mem_append_right _ (List.mem_cons_of_mem _ List.mem_cons_self)
      exact Or.inr ⟨list, own, before, after, holds.parentOf?_of_child inList listed, split, kind,
        holds.mem_childrenOf member link⟩
  · rintro (⟨own, list, next, before, after, link, kind, outer, isList, split, isReturn⟩ |
      ⟨list, own, before, after, link, split, kind, child⟩)
    · have different : own ≠ statement := fun same =>
        otherCall (eq_call_of_parentOf? holds single member (same ▸ link))
      exact ⟨own, list, next, before, after, link, ⟨kind, different⟩, outer, isList, split,
        Or.inl isReturn⟩
    · have different : own ≠ statement := by
        intro same
        rw [same, single.consists] at child
        exact otherCall (List.mem_singleton.mp child)
      have isList : store.kind? list = some .program ∨ store.kind? list = some .block := by
        rcases single.listed with ⟨parent, parentLink, isList⟩
        rw [link, Option.some.injEq] at parentLink
        rwa [parentLink]
      have listed : own ∈ store.childrenOf list := by
        rw [split]
        exact List.mem_append_right _ List.mem_cons_self
      have inList := holds.parent_mem inTree link
      have ownInTree := holds.child_mem inList listed
      exact ⟨own, list, statement, before, after, holds.parentOf?_of_child ownInTree child,
        ⟨kind, different⟩, holds.parentOf?_of_child inList listed, isList, split, Or.inr rfl⟩

/-- The only child of the statement is a call and no `&&`. -/
theorem guardedOperand_turnIntoReturn (member : name ∈ shape.preorder) :
    (store.turnIntoReturn statement).IsGuardedOperand name ↔ store.IsGuardedOperand name := by
  have differs : DiffersIn statement store (store.turnIntoReturn statement) shape :=
    differsIn_turnIntoReturn single
  have operator := fun name => differs.kind?_iff name .logicalAnd (by decide) (by decide)
  simp only [IsGuardedOperand, parentOf?_turnIntoReturn, childrenOf_turnIntoReturn,
    isStatement_turnIntoReturn_iff single, operator]
  constructor
  · rintro ⟨operation, outer, link, isAnd, last, above, kind, _⟩
    exact ⟨operation, outer, link, isAnd, last, above, kind⟩
  · rintro ⟨operation, outer, link, isAnd, last, above, kind⟩
    have different : outer ≠ statement := by
      intro same
      have isCall := eq_call_of_parentOf? holds single (holds.parent_mem member link)
        (same ▸ above)
      rw [isCall, single.isCall] at isAnd
      cases isAnd
    exact ⟨operation, outer, link, isAnd, last, above, kind, different⟩

theorem functionTail_turnIntoReturn (member : name ∈ shape.preorder) (otherCall : name ≠ call)
    (isFunction : store.kind? function = some .function) :
    (store.turnIntoReturn statement).IsFunctionTail function name ↔
      store.IsFunctionTail function name := by
  have differs : DiffersIn statement store (store.turnIntoReturn statement) shape :=
    differsIn_turnIntoReturn single
  have block := fun name => differs.kind?_iff name .block (by decide) (by decide)
  simp only [IsFunctionTail, parentOf?_turnIntoReturn, childrenOf_turnIntoReturn,
    isStatement_turnIntoReturn_iff single, block, differs.bodyOf?_eq isFunction]
  constructor
  · rintro ⟨own, body, link, ⟨kind, _⟩, rest⟩
    exact ⟨own, body, link, kind, rest⟩
  · rintro ⟨own, body, link, kind, rest⟩
    have different : own ≠ statement := fun same =>
      otherCall (eq_call_of_parentOf? holds single member (same ▸ link))
    exact ⟨own, body, link, ⟨kind, different⟩, rest⟩

theorem accepted_turnIntoReturn (inTree : statement ∈ shape.preorder)
    (member : name ∈ shape.preorder) (nearest : store.NearestFunction function name) :
    (store.turnIntoReturn statement).IsAccepted function name ↔
      store.IsAccepted function name ∨ (name = call ∨ store.IsCallBefore statement name) := by
  by_cases same : name = call
  · have accepted := (returnOperand_turnIntoReturn holds single inTree member).mpr (Or.inr same)
    exact iff_of_true (Or.inl accepted) (Or.inr (Or.inl same))
  · rw [IsAccepted, IsAccepted, returnOperand_turnIntoReturn holds single inTree member,
      (differsIn_turnIntoReturn single).inExpressionBody_iff holds member nearest,
      followedByReturn_turnIntoReturn holds single inTree member same,
      guardedOperand_turnIntoReturn holds single member,
      functionTail_turnIntoReturn holds single member same nearest.isFunction, or_iff_left same,
      or_iff_right same]
    tauto

end Edits

/-! ## A `return` is put after the statement -/

section Put

variable {statement list call name function : Nat} (position : Position)
  (holds : store.Holds shape) (inList : store.parentOf? statement = some list)

include holds inList

theorem differsIn_putReturnAfter :
    DiffersIn store.nodes.size store (store.putReturnAfter statement position) shape where
  agree := agreeExcept_putReturnAfter position inList
  kinds := by
    intro kind noStatement noReturn
    have free : store.kind? store.nodes.size = none := by
      rw [kind?, node?, Array.getElem?_eq_none (Nat.le_refl _), Option.map_none]
    rw [kind?_putReturnAfter position inList, free, ne_eq, ne_eq, Option.some.injEq]
    refine ⟨?_, Ne.symm noReturn⟩
    intro impossible
    cases impossible
  parents := by
    intro name member
    exact (agreeExcept_putReturnAfter position inList).parentOf?_eq
      (Nat.ne_of_lt (holds.lt_size_of_mem member))

theorem kind?_putReturnAfter_of_mem (member : name ∈ shape.preorder) :
    (store.putReturnAfter statement position).kind? name = store.kind? name :=
  (agreeExcept_putReturnAfter position inList).kind?_eq (Nat.ne_of_lt (holds.lt_size_of_mem member))

theorem parentOfKind?_putReturnAfter (kind : Kind) (member : name ∈ shape.preorder) :
    (store.putReturnAfter statement position).parentOfKind? kind name =
      store.parentOfKind? kind name := by
  have parentEq := (differsIn_putReturnAfter position holds inList).parents name member
  rw [parentOfKind?, parentOfKind?, parentEq]
  cases link : store.parentOf? name with
  | none => rfl
  | some parent =>
      have kindEq := kind?_putReturnAfter_of_mem position holds inList
        (holds.parent_mem member link)
      rw [Option.filter_some, Option.filter_some, kindEq]

theorem statementListOf?_putReturnAfter (member : name ∈ shape.preorder) :
    (store.putReturnAfter statement position).statementListOf? name =
      store.statementListOf? name := by
  have differs := differsIn_putReturnAfter position holds inList
  rw [statementListOf?, statementListOf?, statementOf?, statementOf?,
    parentOfKind?_putReturnAfter position holds inList _ member]
  cases own : store.parentOfKind? .expressionStatement name with
  | none => rfl
  | some found =>
      have foundInTree := holds.parent_mem member (parentOfKind?_eq_some_iff.mp own).1
      rw [Option.bind_some, Option.bind_some, differs.parents found foundInTree]
      cases link : store.parentOf? found with
      | none => rfl
      | some parent =>
          rw [Option.filter_some, Option.filter_some,
            kind?_putReturnAfter_of_mem position holds inList (holds.parent_mem foundInTree link)]

/-- Only calls of the statement itself get another following statement. -/
theorem followingStatement?_putReturnAfter (member : name ∈ shape.preorder)
    (outside : store.parentOf? name ≠ some statement) :
    (store.putReturnAfter statement position).followingStatement? name =
      store.followingStatement? name := by
  rw [followingStatement?, followingStatement?, statementOf?, statementOf?,
    statementListOf?_putReturnAfter position holds inList member,
    parentOfKind?_putReturnAfter position holds inList _ member]
  cases own : store.parentOfKind? .expressionStatement name with
  | none => rfl
  | some found =>
      have link := (parentOfKind?_eq_some_iff.mp own).1
      have different : found ≠ statement := fun same => outside (same ▸ link)
      rw [Option.bind_some, Option.bind_some, nextSibling?_putReturnAfter position inList holds
        (holds.parent_mem member link) different]

/-- The list of statements is no `&&`, so the operands are the same. -/
theorem isGuarded_putReturnAfter
    (isList : store.kind? list = some .program ∨ store.kind? list = some .block)
    (member : name ∈ shape.preorder) :
    (store.putReturnAfter statement position).isGuarded name = store.isGuarded name := by
  rw [isGuarded, isGuarded, parentOfKind?_putReturnAfter position holds inList _ member]
  cases own : store.parentOfKind? .logicalAnd name with
  | none => rfl
  | some operation =>
      have found := parentOfKind?_eq_some_iff.mp own
      have inTree := holds.parent_mem member found.1
      have noList : operation ≠ list := by
        intro same
        rw [same] at found
        rcases isList with isProgram | isBlock
        · exact absurd (found.2.symm.trans isProgram) (by decide)
        · exact absurd (found.2.symm.trans isBlock) (by decide)
      have children := childrenOf_putReturnAfter position inList
        (Nat.ne_of_lt (holds.lt_size_of_mem inTree))
      rw [if_neg noList] at children
      dsimp only
      rw [children, parentOfKind?_putReturnAfter position holds inList _ inTree]

theorem bodyBlock?_putReturnAfter (isFunction : store.kind? function = some .function) :
    (store.putReturnAfter statement position).bodyBlock? function =
      store.bodyBlock? function := by
  have differs := differsIn_putReturnAfter position holds inList
  have isBlock : (fun body => (store.putReturnAfter statement position).kind? body ==
      some Kind.block) = fun body => store.kind? body == some Kind.block := by
    funext body
    rw [Bool.eq_iff_iff, beq_iff_eq, beq_iff_eq]
    exact differs.kind?_iff body _ (by decide) (by decide)
  rw [bodyBlock?, bodyBlock?, differs.bodyOf?_eq isFunction, isBlock]

end Put

section Put

variable {statement call name function : Nat} (position : Position)
  (holds : store.Holds shape) (inTree : statement ∈ shape.preorder)
  (single : store.IsCallStatement statement call)

include holds inTree single

theorem followedByReturn_putReturnAfter :
    (store.putReturnAfter statement position).IsFollowedByReturn call := by
  rcases single.listed with ⟨list, inList, isList⟩
  have differs := differsIn_putReturnAfter position holds inList
  have link := parentOf?_call holds single inTree
  have callInTree : call ∈ shape.preorder := by
    apply holds.child_mem inTree
    rw [single.consists]
    exact List.mem_singleton_self call
  have listInTree := holds.parent_mem inTree inList
  rcases holds.exists_siblings inTree inList with ⟨before, after, split, notBefore, notAfter⟩
  have children := childrenOf_putReturnAfter position inList
    (Nat.ne_of_lt (holds.lt_size_of_mem listInTree))
  rw [if_pos rfl, split, insertAfter_of_split _ notBefore notAfter] at children
  refine ⟨statement, list, store.nodes.size, before, after, ?_, ?_, ?_, ?_, children, ?_⟩
  · rw [differs.parents call callInTree, link]
  · rw [kind?_putReturnAfter_of_mem position holds inList inTree, single.isStatement]
  · rw [differs.parents statement inTree, inList]
  · rwa [kind?_putReturnAfter_of_mem position holds inList listInTree]
  · exact kind?_putReturnAfter position inList

theorem accepted_putReturnAfter (member : name ∈ shape.preorder)
    (nearest : store.NearestFunction function name) :
    (store.putReturnAfter statement position).IsAccepted function name ↔
      store.IsAccepted function name ∨ name = call := by
  by_cases same : name = call
  · have followed := followedByReturn_putReturnAfter position holds inTree single
    exact iff_of_true (Or.inr (Or.inr (Or.inl (same ▸ followed)))) (Or.inr same)
  · rcases single.listed with ⟨list, inList, isList⟩
    rcases holds.exists_putReturnAfter inTree inList position with
      ⟨larger, holdsLarger, _, before, after, whole, split⟩
    have memberLarger : name ∈ larger.preorder := by
      rw [whole] at member
      rw [split]
      exact (List.mem_append.mp member).elim (List.mem_append_left _)
        fun later => List.mem_append_right _ (List.mem_cons_of_mem _ later)
    have outside : store.parentOf? name ≠ some statement := fun link =>
      same (eq_call_of_parentOf? holds single member link)
    have differs := differsIn_putReturnAfter position holds inList
    have following := followingStatement?_putReturnAfter position holds inList member outside
    have next : (store.followingStatement? name).bind
        (store.putReturnAfter statement position).kind? =
          (store.followingStatement? name).bind store.kind? := by
      cases found : store.followingStatement? name with
      | none => rfl
      | some following =>
          exact kind?_putReturnAfter_of_mem position holds inList
            (holds.followingStatement?_mem member found)
    rw [or_iff_left same, IsAccepted, IsAccepted, differs.inExpressionBody_iff holds member nearest,
      ← returnOperand_iff, ← returnOperand_iff, ← guardedOperand_iff, ← guardedOperand_iff,
      ← followedByReturn_iff holdsLarger memberLarger, ← followedByReturn_iff holds member,
      ← functionTail_iff function holdsLarger memberLarger,
      ← functionTail_iff function holds member,
      parentOfKind?_putReturnAfter position holds inList _ member,
      isGuarded_putReturnAfter position holds inList isList member,
      statementListOf?_putReturnAfter position holds inList member,
      bodyBlock?_putReturnAfter position holds inList nearest.isFunction, following, next]

end Put

/-! ## Neither edit leads to a new diagnostic -/

open Classical in
/-- What following the advice at a statement that is a call does to the reported calls.
Their order stays, and no other call comes in or goes. -/
structure AdviceHelps (store : Store) (names : List String) (root statement call : Nat) : Prop where
  /-- With the statement turned into a `return`, the call is not reported any more, nor
  are calls that are statements right before it. -/
  turned : (store.turnIntoReturn statement).reportedCalls names root =
    (store.reportedCalls names root).filter fun reported =>
      decide (¬ (reported = call ∨ store.IsCallBefore statement reported))
  /-- With a `return` after the statement, the call is not reported any more. -/
  put : ∀ position, (store.putReturnAfter statement position).reportedCalls names root =
    (store.reportedCalls names root).filter fun reported => decide (¬ reported = call)

open Classical in
/-- Following the advice anywhere in a tree takes away the diagnostic there and leads to
no other one, whatever the bodies of the functions refer to. -/
theorem advice_helps (store : Store) (shape : Rose Nat) (holds : store.Holds shape)
    (names : List String) (statement call : Nat) (inTree : statement ∈ shape.preorder)
    (single : store.IsCallStatement statement call) :
    store.AdviceHelps names shape.value statement call where
  turned := by
    rw [reportedCalls_eq (holds.turnIntoReturn statement), reportedCalls_eq holds,
      List.filter_filter]
    apply List.filter_congr
    intro name member
    rw [Bool.eq_iff_iff, Bool.and_eq_true, decide_eq_true_iff, decide_eq_true_iff,
      decide_eq_true_iff, and_comm]
    exact (differsIn_turnIntoReturn single).violates_iff holds member names
      fun function nearest => accepted_turnIntoReturn holds single inTree member nearest
  put := by
    intro position
    rcases single.listed with ⟨list, inList, isList⟩
    rcases holds.exists_putReturnAfter inTree inList position with
      ⟨larger, holdsLarger, sameRoot, before, after, whole, split⟩
    have leaf : ¬ (store.putReturnAfter statement position).Violates names store.nodes.size := by
      rintro ⟨⟨node, _, found, isCall, _⟩, _⟩
      have kind := kind?_putReturnAfter position inList
      rw [kind?, found, Option.map_some, isCall] at kind
      cases kind
    rw [← sameRoot, reportedCalls_eq holdsLarger, sameRoot, reportedCalls_eq holds, whole, split,
      List.filter_append, List.filter_cons_of_neg (by simpa only [decide_eq_true_eq] using leaf),
      ← List.filter_append, List.filter_filter]
    apply List.filter_congr
    intro name member
    rw [← whole] at member
    rw [Bool.eq_iff_iff, Bool.and_eq_true, decide_eq_true_iff, decide_eq_true_iff,
      decide_eq_true_iff, and_comm]
    exact (differsIn_putReturnAfter position holds inList).violates_iff holds member names
      fun function nearest => accepted_putReturnAfter position holds inTree single member nearest

/-- A function of two calls, each of which is a statement. -/
def twoCalls : Store where
  nodes := #[
    { kind := .program, position := ⟨1, 1⟩, children := [1] },
    { kind := .function, position := ⟨1, 1⟩, children := [2], parent := some 0, body := some 2 },
    { kind := .block, position := ⟨1, 3⟩, children := [3, 4, 5], parent := some 1 },
    { kind := .expressionStatement, position := ⟨2, 1⟩, children := [6], parent := some 2 },
    { kind := .expressionStatement, position := ⟨3, 1⟩, children := [7], parent := some 2 },
    { kind := .other, position := ⟨4, 1⟩, parent := some 2 },
    { kind := .call, position := ⟨2, 1⟩, callee := some "callback", parent := some 3 },
    { kind := .call, position := ⟨3, 1⟩, callee := some "callback", parent := some 4 }]

def twoCallsNames : Rose Nat :=
  node 0 [node 1 [node 2 [node 3 [node 6 []], node 4 [node 7 []], node 5 []]]]

theorem advice_helps_twoCalls :
    twoCalls.Holds twoCallsNames ∧ 4 ∈ twoCallsNames.preorder ∧ twoCalls.IsCallStatement 4 7 ∧
      twoCalls.AdviceHelps ["callback"] twoCallsNames.value 4 7 := by
  have holds : twoCalls.Holds twoCallsNames := by decide
  have inTree : 4 ∈ twoCallsNames.preorder := by decide
  have single : twoCalls.IsCallStatement 4 7 := ⟨rfl, rfl, rfl, 2, rfl, Or.inr rfl⟩
  exact ⟨holds, inTree, single,
    advice_helps twoCalls twoCallsNames holds ["callback"] 4 7 inTree single⟩

end Store

end CallbackLint
