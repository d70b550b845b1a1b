import CallbackLint.Proofs.Concrete.Agreement
import CallbackLint.Proofs.Concrete.Replacement
import CallbackLint.Proofs.Concrete.WellFormed
import CallbackLint.Proofs.Rule.Likeness

namespace CallbackLint

open Rose

/-!
# Leaving out HTML comments

Besides the comments that lowering does not visit, there are those in the style of HTML.
Lowering makes nodes of them, so they can stand between a call and what makes its place an
accepted one: the `return` after it, the end of the body, the end of an `&&`, or the
parentheses that would give way to it.

Where none of this is so, leaving out such comments changes nothing of what a check finds.
-/

namespace Concrete

open Lowering

/-! ## Leaving out comments -/

/-- A comment in the style of HTML, without a role, whose identity is among the chosen ones. -/
def isOmitted (chosen : Int → Bool) (node : Concrete) : Bool :=
  node.value.type == "html_comment" && node.value.field.isNone && node.children.isEmpty &&
    chosen node.value.identity

mutual

/-- A tree without the chosen comments below its root. -/
def without (chosen : Int → Bool) : Concrete → Concrete
  | .node label children => .node label (withoutAll chosen children)

def withoutAll (chosen : Int → Bool) : List Concrete → List Concrete
  | [] => []
  | .node label children :: rest =>
    if isOmitted chosen (.node label children) then withoutAll chosen rest
    else without chosen (.node label children) :: withoutAll chosen rest

end

variable {chosen : Int → Bool} {node : Concrete}

def isKept (chosen : Int → Bool) (node : Concrete) : Bool := !isOmitted chosen node

theorem withoutAll_eq (chosen : Int → Bool) (nodes : List Concrete) :
    withoutAll chosen nodes = (nodes.filter (isKept chosen)).map (without chosen) := by
  induction nodes with
  | nil => rfl
  | cons node rest inductionHypothesis =>
      rcases node with ⟨label, children⟩
      rw [withoutAll, inductionHypothesis, List.filter_cons, isKept]
      cases isOmitted chosen (.node label children) <;> rfl

theorem value_without (chosen : Int → Bool) (node : Concrete) :
    (node.without chosen).value = node.value := by
  cases node with
  | node label children => rfl

theorem children_without (chosen : Int → Bool) (node : Concrete) :
    (node.without chosen).children =
      (node.children.filter (isKept chosen)).map (without chosen) := by
  cases node with
  | node label children => rw [without, children_node, withoutAll_eq, children_node]

/-- The comments play no role, so the others keep theirs. -/
theorem childInRole?_without (chosen : Int → Bool) (node : Concrete) (role : String) :
    ((node.without chosen).childInRole? role).map Rose.value =
      (node.childInRole? role).map Rose.value := by
  have stays : ∀ child : Concrete, (isKept chosen child && child.value.field == some role) =
      (child.value.field == some role) := by
    intro child
    cases found : child.value.field == some role with
    | false => exact Bool.and_false _
    | true =>
        have noOmission : isOmitted chosen child = false := by
          rw [isOmitted, beq_iff_eq.mp found, Option.isNone_some, Bool.and_false, Bool.false_and,
            Bool.false_and]
        rw [isKept, noOmission]
        rfl
  have same : (fun child : Concrete => (child.without chosen).value.field == some role) =
      fun child => child.value.field == some role := by
    funext child
    rw [value_without]
  have values : Rose.value ∘ without chosen = Rose.value := funext (value_without chosen)
  rw [childInRole?, children_without, List.find?_map, Function.comp_def, same, Option.map_map,
    values, List.find?_filter]
  simp only [Bool.decide_and, Bool.decide_eq_true, stays, childInRole?]

theorem visibleChildren_without (chosen : Int → Bool) (node : Concrete) :
    (node.without chosen).visibleChildren =
      (node.visibleChildren.filter (isKept chosen)).map (without chosen) := by
  have shown : ((fun child : Concrete => child.value.isVisible) ∘ without chosen) =
      fun child => child.value.isVisible := by
    funext child
    rw [Function.comp_apply, value_without]
  rw [visibleChildren, children_without, List.filter_map, shown, visibleChildren,
    List.filter_filter, List.filter_filter]
  simp only [Bool.and_comm]

theorem isInRole_without (chosen : Int → Bool) (node : Concrete) (role : String)
    (child : Concrete) :
    (node.without chosen).isInRole role (child.without chosen) = node.isInRole role child := by
  rw [isInRole, isInRole, identityInRole?_eq, identityInRole?_eq, childInRole?_without,
    value_without]

theorem isCase_without (chosen : Int → Bool) (node : Concrete) :
    (node.without chosen).isCase = node.isCase := by
  rw [isCase, isCase, value_without]

theorem kind_without (chosen : Int → Bool) (node : Concrete) :
    (node.without chosen).kind = node.kind := by
  have types : ∀ role, (node.without chosen).typeInRole? role = node.typeInRole? role := by
    intro role
    rw [typeInRole?_eq, typeInRole?_eq, childInRole?_without]
  rw [kind, kind, isCall, isCall, plainKind, plainKind, isCase_without]
  simp only [types, value_without]

mutual

theorem preorder_without_sublist (chosen : Int → Bool) : (node : Concrete) →
    (node.without chosen).preorder.Sublist node.preorder
  | .node label children => by
      rw [without, preorder, preorder]
      exact (preorderAll_without_sublist chosen children).cons_cons label

theorem preorderAll_without_sublist (chosen : Int → Bool) : (nodes : List Concrete) →
    (preorderAll (withoutAll chosen nodes)).Sublist (preorderAll nodes)
  | [] => List.Sublist.refl _
  | .node label children :: rest => by
      have later := preorderAll_without_sublist chosen rest
      rw [withoutAll, preorderAll]
      split_ifs
      · exact later.trans (List.sublist_append_right _ _)
      · exact (preorder_without_sublist chosen (.node label children)).append later

end

theorem Distinct.without (distinct : node.Distinct) (chosen : Int → Bool) :
    (node.without chosen).Distinct :=
  List.Nodup.sublist ((preorder_without_sublist chosen node).map ConcreteLabel.identity) distinct

/-! ## Where a comment stands in the way -/

/-- The nodes of a list that are followed by chosen comments, each with the next node that
stays. -/
def uncovered (chosen : Int → Bool) : List Concrete → List (Concrete × Option Concrete)
  | [] => []
  | node :: rest =>
    if isKept chosen node && rest.head?.any (isOmitted chosen) then
      (node, rest.find? (isKept chosen)) :: uncovered chosen rest
    else uncovered chosen rest

theorem mem_uncovered {left right : List Concrete} (kept : isKept chosen node = true)
    (covered : right.head?.any (isOmitted chosen) = true) :
    (node, right.find? (isKept chosen)) ∈ uncovered chosen (left ++ node :: right) := by
  induction left with
  | nil =>
      rw [List.nil_append, uncovered, kept, covered, Bool.and_true, if_pos rfl]
      exact List.mem_cons_self
  | cons first left inductionHypothesis =>
      rw [List.cons_append, uncovered]
      split_ifs
      · exact List.mem_cons_of_mem _ inductionHypothesis
      · exact inductionHypothesis

/-- If no chosen comment comes next, the next node is the next one that stays. -/
theorem find?_isKept {nodes : List Concrete}
    (uncovered : nodes.head?.any (isOmitted chosen) = false) :
    nodes.find? (isKept chosen) = nodes.head? := by
  cases nodes with
  | nil => rfl
  | cons first rest =>
      rw [List.head?_cons, Option.any_some] at uncovered
      rw [List.find?_cons_of_pos, List.head?_cons]
      rw [isKept, uncovered]
      rfl

/-- The statements below a node: in a `case`, all but the value. -/
def statements (node : Concrete) : List Concrete :=
  if node.isCase then node.visibleChildren.filter fun child => !node.isInRole "value" child
  else node.visibleChildren

/-- No test misses the chosen comments among the children of a node.  The four conditions are those
under which a sibling decides anything; a comment elsewhere is never looked at. -/
structure Tolerates (chosen : Int → Bool) (node : Concrete) : Prop where
  /-- A wrapper does not come to wrap a single node. -/
  wrapper : wrapperTypes.contains node.value.type = true →
    (node.visibleChildren.filter (isKept chosen)).length = 1 → node.visibleChildren.length = 1
  /-- No call comes to be the last operand of an `&&`. -/
  operand : node.kind = .logicalAnd → ∀ pair ∈ uncovered chosen node.visibleChildren,
    pair.1.strip.kind = .call → pair.2.isSome = true
  /-- No expression statement comes to stand right before a `return`. -/
  statement : node.isCase = true ∨ node.kind = .program ∨ node.kind = .block →
    ∀ pair ∈ uncovered chosen node.statements, pair.1.strip.kind = .expressionStatement →
      (pair.2.map fun next => next.strip.kind) ≠ some .returnStatement
  /-- No expression statement comes to be the last one of a block. -/
  tail : node.kind = .block → ∀ pair ∈ uncovered chosen node.visibleChildren,
    pair.1.strip.kind = .expressionStatement → pair.2.isSome = true

instance (chosen : Int → Bool) (node : Concrete) : Decidable (Tolerates chosen node) :=
  decidable_of_iff
    ((wrapperTypes.contains node.value.type = true →
        (node.visibleChildren.filter (isKept chosen)).length = 1 →
          node.visibleChildren.length = 1) ∧
      (node.kind = .logicalAnd → ∀ pair ∈ uncovered chosen node.visibleChildren,
        pair.1.strip.kind = .call → pair.2.isSome = true) ∧
      (node.isCase = true ∨ node.kind = .program ∨ node.kind = .block →
        ∀ pair ∈ uncovered chosen node.statements, pair.1.strip.kind = .expressionStatement →
          (pair.2.map fun next => next.strip.kind) ≠ some .returnStatement) ∧
      (node.kind = .block → ∀ pair ∈ uncovered chosen node.visibleChildren,
        pair.1.strip.kind = .expressionStatement → pair.2.isSome = true))
    ⟨fun all => ⟨all.1, all.2.1, all.2.2.1, all.2.2.2⟩,
      fun all => ⟨all.wrapper, all.operand, all.statement, all.tail⟩⟩

/-! ## One list of children -/

variable (source : List UInt8)

/-- What becomes of the children of a node, with and without the chosen comments. -/
def omission (chosen : Int → Bool) (nodes : List Concrete) : Tree.Change :=
  nodes.map fun node => (lowerDirectly source node,
    if isKept chosen node then some (lowerDirectly source (node.without chosen)) else none)

theorem old_omission (chosen : Int → Bool) (nodes : List Concrete) :
    Tree.old (omission source chosen nodes) = nodes.map (lowerDirectly source) := by
  rw [Tree.old, omission, List.map_map]
  rfl

theorem new_omission (nodes : List Concrete) :
    Tree.new (omission source chosen nodes) =
      ((nodes.filter (isKept chosen)).map (without chosen)).map (lowerDirectly source) := by
  induction nodes with
  | nil => rfl
  | cons node rest inductionHypothesis =>
      rw [omission, List.map_cons, Tree.new, List.filterMap_cons, List.filter_cons]
      rw [Tree.new, omission] at inductionHypothesis
      cases isKept chosen node with
      | true => exact congrArg (List.cons _) inductionHypothesis
      | false => exact inductionHypothesis

/-- A comment becomes a node without calls. -/
theorem lowerDirectly_of_omitted (omitted : isOmitted chosen node = true) :
    (lowerDirectly source node).IsSilent ∧ (lowerDirectly source node).kind = .other := by
  rw [isOmitted, Bool.and_eq_true, Bool.and_eq_true, Bool.and_eq_true, beq_iff_eq] at omitted
  rcases omitted with ⟨⟨⟨type, _⟩, leaf⟩, _⟩
  rcases node with ⟨label, children⟩
  rw [children_node, List.isEmpty_iff] at leaf
  rw [value_node] at type
  rw [leaf]
  have shape : lowerDirectly source (.node label []) =
      .plain .other (label.position source) [] := by
    rw [lowerDirectly, build, isCall, plainKind, value_node, type]
    rfl
  rw [shape]
  exact ⟨fun _ => rfl, rfl⟩

/-- A node and what it becomes without the chosen comments below it are seen alike. -/
def SeenAlikeWithout (chosen : Int → Bool) (node : Concrete) : Prop :=
  Tree.SeenAlike (lowerDirectly source node) (lowerDirectly source (node.without chosen))

variable {source}

theorem isQuiet_omission {nodes : List Concrete}
    (each : ∀ node ∈ nodes, isKept chosen node = true → SeenAlikeWithout source chosen node) :
    Tree.IsQuiet (omission source chosen nodes) := by
  intro tree new? member
  rcases List.mem_map.mp member with ⟨node, listed, same⟩
  rw [Prod.mk.injEq] at same
  rw [← same.1, ← same.2]
  cases kept : isKept chosen node with
  | true => exact Or.inl ⟨_, rfl, each node listed kept⟩
  | false =>
      rw [isKept, Bool.not_eq_false'] at kept
      exact Or.inr ⟨rfl, (lowerDirectly_of_omitted source kept).1⟩

/-- What is said of one child that stays: the tests look for nothing that the comments
after it hide. -/
structure Misses (chosen : Int → Bool) (upper : Kind) (above : List Rung) (node : Concrete)
    (next : Option Concrete) : Prop where
  operand : upper = .logicalAnd → node.strip.kind = .call → next.isSome = true
  statement : upper.isStatementList = true → node.strip.kind = .expressionStatement →
    (next.map fun next => next.strip.kind) ≠ some .returnStatement
  tail : upper = .block → above.head?.any Rung.isFunctionBody = true →
    node.strip.kind = .expressionStatement → next.isSome = true

theorem head?_old_omission (nodes : List Concrete) :
    (Tree.old (omission source chosen nodes)).head?.map Tree.kind =
      nodes.head?.map fun node => node.strip.kind := by
  rw [old_omission, List.head?_map, Option.map_map]
  apply congrArg (fun change => nodes.head?.map change)
  funext node
  exact kind_lowerDirectly source node

theorem head?_new_omission {nodes : List Concrete}
    (each : ∀ node ∈ nodes, isKept chosen node = true → SeenAlikeWithout source chosen node) :
    (Tree.new (omission source chosen nodes)).head?.map Tree.kind =
      (nodes.find? (isKept chosen)).map fun node => node.strip.kind := by
  rw [new_omission, List.map_map, List.head?_map, List.head?_filter, Option.map_map]
  cases found : nodes.find? (isKept chosen) with
  | none => rfl
  | some node =>
      have alike := each node (List.mem_of_find?_eq_some found) (List.find?_some found)
      rw [Option.map_some, Option.map_some]
      exact congrArg some (alike.kind.trans (kind_lowerDirectly source node))

/-- A child that stays has rungs that look the same, with and without the comments. -/
theorem alike_omission {upper other : Label} {above : List Rung} {next : Option Kind}
    (kind : other.kind = upper.kind) (noReturn : next ≠ some .returnStatement)
    {left right : List Concrete}
    (each : ∀ child ∈ node :: right, isKept chosen child = true →
      SeenAlikeWithout source chosen child)
    (kept : isKept chosen node = true)
    (body : upper.kind = .function →
      (other.body == some (left.filter (isKept chosen)).length) =
        (upper.body == some left.length))
    (misses : right.head?.any (isOmitted chosen) = true →
      Misses chosen upper.kind above node (right.find? (isKept chosen))) :
    Rung.Alike above
      { upper, place := (Tree.old (omission source chosen left)).length
        lower := (lowerDirectly source node).kind
        next := ((Tree.old (omission source chosen right)).head?.map Tree.kind).or next }
      { upper := other, place := (Tree.new (omission source chosen left)).length
        lower := (lowerDirectly source (node.without chosen)).kind
        next := ((Tree.new (omission source chosen right)).head?.map Tree.kind).or next } := by
  have ownKind := kind_lowerDirectly source node
  have alike := each node List.mem_cons_self kept
  have places : (Tree.old (omission source chosen left)).length = left.length ∧
      (Tree.new (omission source chosen left)).length = (left.filter (isKept chosen)).length := by
    rw [old_omission, new_omission, List.length_map, List.length_map, List.length_map]
    exact ⟨rfl, rfl⟩
  have later : ∀ child ∈ right, isKept chosen child = true →
      SeenAlikeWithout source chosen child :=
    fun child member => each child (List.mem_cons_of_mem _ member)
  rw [places.1, places.2, head?_old_omission, head?_new_omission later]
  cases covered : right.head?.any (isOmitted chosen) with
  | false =>
      rw [find?_isKept covered]
      exact ⟨kind, alike.kind, body, fun _ _ => rfl, fun _ _ => rfl, fun _ _ _ => rfl⟩
  | true =>
      have missed := misses covered
      have hidden : (right.head?.map fun node => node.strip.kind) = some .other := by
        cases right with
        | nil => cases covered
        | cons comment rest =>
            have omitted : isOmitted chosen comment = true := covered
            have silent := lowerDirectly_of_omitted source omitted
            exact congrArg some ((kind_lowerDirectly source comment).symm.trans silent.2)
      rw [hidden, Option.some_or]
      refine ⟨kind, alike.kind, body, ?_, ?_, ?_⟩
      · intro isAnd isCall
        have stays := missed.operand isAnd (ownKind.symm.trans isCall)
        rcases Option.isSome_iff_exists.mp stays with ⟨following, found⟩
        rw [found]
        rfl
      · intro isList isStatement
        have noReturnNext := missed.statement isList (ownKind.symm.trans isStatement)
        cases found : right.find? (isKept chosen) with
        | none => exact beq_eq_false_iff_ne.mpr noReturn
        | some following =>
            rw [found] at noReturnNext
            exact beq_eq_false_iff_ne.mpr noReturnNext
      · intro isBlock isStatement isBody
        have stays := missed.tail isBlock isBody (ownKind.symm.trans isStatement)
        rcases Option.isSome_iff_exists.mp stays with ⟨following, found⟩
        rw [found]
        rfl

/-- The children of a node do not notice that the chosen comments are gone. -/
theorem isUnnoticed_omission {upper other : Label} {above : List Rung} {next : Option Kind}
    {nodes : List Concrete} (kind : other.kind = upper.kind)
    (noReturn : next ≠ some .returnStatement)
    (each : ∀ node ∈ nodes, isKept chosen node = true → SeenAlikeWithout source chosen node)
    (body : upper.kind = .function → ∀ left node right, nodes = left ++ node :: right →
      isKept chosen node = true →
        (other.body == some (left.filter (isKept chosen)).length) =
          (upper.body == some left.length))
    (misses : ∀ pair ∈ uncovered chosen nodes, Misses chosen upper.kind above pair.1 pair.2) :
    Tree.IsUnnoticed (omission source chosen nodes) upper other above next := by
  intro left tree stays right split
  rw [omission, List.map_eq_append_iff] at split
  rcases split with ⟨before, rest, whole, leftEq, restEq⟩
  rcases List.map_eq_cons_iff.mp restEq with ⟨node, after, restSplit, pairEq, rightEq⟩
  rw [restSplit] at whole
  rw [Prod.mk.injEq] at pairEq
  rcases pairEq with ⟨treeEq, staysEq⟩
  cases kept : isKept chosen node with
  | false =>
      rw [kept] at staysEq
      cases staysEq
  | true =>
      rw [kept, if_pos rfl, Option.some.injEq] at staysEq
      rw [← treeEq, ← staysEq, ← leftEq, ← rightEq]
      apply alike_omission kind noReturn
      · intro child member
        apply each child
        rw [whole]
        exact List.mem_append_right _ member
      · exact kept
      · exact fun isFunction => body isFunction before node after whole kept
      · intro covered
        rw [whole] at misses
        exact misses _ (mem_uncovered kept covered)

/-! ## One node -/

section Node

variable (each : ∀ child ∈ node.visibleChildren, isKept chosen child = true →
  SeenAlikeWithout source chosen child)

include each

theorem SeenAlikeWithout.of_collapsed (collapsed : node.isCollapsed = true) :
    SeenAlikeWithout source chosen node := by
  rcases exists_of_isCollapsed collapsed with ⟨wrapper, inner, single⟩
  have children := visibleChildren_without chosen node
  rw [single, List.filter_singleton] at children
  rw [SeenAlikeWithout, lowerDirectly_of_collapsed source collapsed single]
  cases kept : isKept chosen inner with
  | true =>
      rw [kept, cond_true, List.map_singleton] at children
      have collapsedWithout : (node.without chosen).isCollapsed = true := by
        rw [isCollapsed, children, value_without, wrapper]
        rfl
      rw [lowerDirectly_of_collapsed source collapsedWithout children]
      exact each inner (single ▸ List.mem_cons_self) kept
  | false =>
      -- Nothing is left between the parentheses, and there was nothing but a comment.
      rw [kept, cond_false, List.map_nil] at children
      rw [isKept, Bool.not_eq_false'] at kept
      have old := lowerDirectly_of_omitted source kept
      have notCollapsed : (node.without chosen).isCollapsed = false := by
        rw [isCollapsed, children]
        exact Bool.and_false _
      have kind : (node.without chosen).kind = .other :=
        kind_of_wrapper (by rwa [value_without])
      have noCase : (node.without chosen).isCase = false := by
        rw [Bool.eq_false_iff, ne_eq, ← kind_eq_switchCase_iff, kind]
        decide
      rcases lowerDirectly_of_plain source notCollapsed noCase with ⟨label, isLabel, shape⟩
      rw [children, List.map_nil] at shape
      rw [shape]
      have labelKind : label.kind = .other := isLabel.kind.trans kind
      refine ⟨labelKind.trans old.2.symm, fun rungs others _ => ?_⟩
      have noCall : label.kind ≠ .call := by
        rw [labelKind]
        decide
      rw [old.1, Tree.sightings, Label.sighting?_of_not_call noCall]
      rfl

omit each in
/-- A child that stays is found at its new place. -/
theorem visibleChildren_without_of_split {left right : List Concrete} {child : Concrete}
    (split : node.visibleChildren = left ++ child :: right) (kept : isKept chosen child = true) :
    (node.without chosen).visibleChildren =
      (left.filter (isKept chosen)).map (without chosen) ++
        child.without chosen :: (right.filter (isKept chosen)).map (without chosen) := by
  rw [visibleChildren_without, split, List.filter_append, List.filter_cons, kept, if_pos rfl,
    List.map_append, List.map_cons]

theorem SeenAlikeWithout.of_plain (notCollapsed : node.isCollapsed = false)
    (noCase : node.isCase = false) (distinct : node.Distinct) (tolerates : Tolerates chosen node) :
    SeenAlikeWithout source chosen node := by
  have notCollapsedWithout : (node.without chosen).isCollapsed = false := by
    rw [isCollapsed, Bool.and_eq_false_iff, beq_eq_false_iff_ne] at notCollapsed ⊢
    rw [value_without, visibleChildren_without, List.length_map]
    cases wrapper : wrapperTypes.contains node.value.type with
    | false => exact Or.inl rfl
    | true =>
        rw [wrapper] at notCollapsed
        refine Or.inr fun single => ?_
        rcases notCollapsed with impossible | several
        · cases impossible
        · exact several (tolerates.wrapper wrapper single)
  rcases lowerDirectly_of_plain source notCollapsed noCase with ⟨label, isLabel, shape⟩
  rcases lowerDirectly_of_plain source notCollapsedWithout
    ((isCase_without chosen node).trans noCase) with ⟨other, isOther, otherShape⟩
  have kind : other.kind = label.kind :=
    isOther.kind.trans ((kind_without chosen node).trans isLabel.kind.symm)
  rw [SeenAlikeWithout, shape, otherShape, visibleChildren_without, ← new_omission,
    ← old_omission source chosen]
  apply Tree.SeenAlike.node kind
  · intro isCall
    rw [isOther.callee (kind.trans isCall), isLabel.callee isCall, isOther.position,
      isLabel.position, value_without]
    exact ⟨calleeOf?_congr source (childInRole?_without chosen node "function"), rfl⟩
  · exact isQuiet_omission each
  · intro rungs
    apply isUnnoticed_omission kind (by decide) each
    · intro isFunction left child right split kept
      have placeWithout := bodyPlace?_eq source (distinct.without chosen).siblings
        (visibleChildren_without_of_split split kept)
      rw [List.length_map] at placeWithout
      rw [isOther.body (kind.trans isFunction), isLabel.body isFunction,
        bodyPlace?_eq source distinct.siblings split, placeWithout, isInRole_without]
    · intro pair member
      rw [isLabel.kind]
      refine ⟨fun isAnd => tolerates.operand isAnd pair member, ?_,
        fun isBlock _ => tolerates.tail isBlock pair member⟩
      intro isList
      have lists : node.kind = .program ∨ node.kind = .block := by
        cases kindEq : node.kind <;> rw [kindEq] at isList <;> first
          | exact Or.inl rfl
          | exact Or.inr rfl
          | cases isList
      apply tolerates.statement (Or.inr lists) pair
      rwa [statements, noCase, if_neg Bool.false_ne_true]

omit each in
/-- The value of a `case` and its statements, without the chosen comments. -/
theorem filter_visibleChildren_without (chosen : Int → Bool) (node : Concrete)
    (side : Bool → Bool) :
    (node.without chosen).visibleChildren.filter
        (fun child => side ((node.without chosen).isInRole "value" child)) =
      ((node.visibleChildren.filter fun child => side (node.isInRole "value" child)).filter
        (isKept chosen)).map (without chosen) := by
  have same : ((fun child => side ((node.without chosen).isInRole "value" child)) ∘
      without chosen) = fun child => side (node.isInRole "value" child) := by
    funext child
    rw [Function.comp_apply, isInRole_without]
  rw [visibleChildren_without, List.filter_map, same, List.filter_filter, List.filter_filter]
  simp only [Bool.and_comm]

omit each in
/-- Two branches of a `switch` are seen alike if nothing is noticed among the values, nor in a
block that is no body of a function. -/
theorem seenAlike_branch {label other blockLabel otherBlock : Label}
    (labelKind : label.kind = .switchCase) (otherKind : other.kind = .switchCase)
    (blockKind : blockLabel.kind = .block) (otherBlockKind : otherBlock.kind = .block)
    {values statements : Tree.Change} (quietValues : Tree.IsQuiet values)
    (quietStatements : Tree.IsQuiet statements)
    (unnoticedValues : ∀ above, Tree.IsUnnoticed values label other above (some .block))
    (unnoticedStatements : ∀ above : List Rung, above.head?.any Rung.isFunctionBody = false →
      Tree.IsUnnoticed statements blockLabel otherBlock above none) :
    Tree.SeenAlike (.node label (Tree.old values ++ [.node blockLabel (Tree.old statements)]))
      (.node other (Tree.new values ++ [.node otherBlock (Tree.new statements)])) := by
  refine ⟨otherKind.trans labelKind.symm, fun rungs others alike => ?_⟩
  have ladders : Rung.AllAlike label.kind rungs others := alike
  have noFunction : label.kind ≠ .function := by
    rw [labelKind]
    decide
  let outer : Rung :=
    { upper := label, place := (Tree.old values).length, lower := .block, next := none }
  have noBody : (outer :: rungs).head?.any Rung.isFunctionBody = false := by
    rw [List.head?_cons, Option.any_some, Rung.isFunctionBody, Rung.isFunction, labelKind]
    rfl
  have outerAlike : Rung.Alike rungs outer
      { upper := other, place := (Tree.new values).length, lower := .block, next := none } :=
    ⟨otherKind.trans labelKind.symm, rfl, fun isFunction => False.elim (noFunction isFunction),
      fun _ _ => rfl, fun _ _ => rfl, fun _ _ _ => rfl⟩
  have ofValues := Tree.sightingsAll_change ladders [] values quietValues (unnoticedValues rungs)
  have ofStatements := Tree.sightingsAll_change
    (Rung.AllAlike.cons outerAlike blockKind.symm ladders) [] statements quietStatements
    (unnoticedStatements _ noBody)
  rw [sightings_of_case labelKind blockKind, sightings_of_case otherKind otherBlockKind]
  exact congrArg₂ (· ++ ·) ofValues ofStatements

theorem SeenAlikeWithout.of_case (isCase : node.isCase = true)
    (tolerates : Tolerates chosen node) : SeenAlikeWithout source chosen node := by
  rcases lowerDirectly_of_case source isCase with ⟨label, blockLabel, labelKind, blockKind, shape⟩
  rcases lowerDirectly_of_case source ((isCase_without chosen node).trans isCase) with
    ⟨other, otherBlock, otherKind, otherBlockKind, otherShape⟩
  have values := filter_visibleChildren_without chosen node id
  have statementsEq := filter_visibleChildren_without chosen node (!·)
  simp only [id] at values
  rw [values, statementsEq, ← new_omission, ← new_omission] at otherShape
  rw [← old_omission source chosen, ← old_omission source chosen] at shape
  have eachOf : ∀ side : Concrete → Bool, ∀ child ∈ node.visibleChildren.filter side,
      isKept chosen child = true → SeenAlikeWithout source chosen child :=
    fun side child member => each child (List.mem_filter.mp member).1
  rw [SeenAlikeWithout, shape, otherShape]
  apply seenAlike_branch labelKind otherKind blockKind otherBlockKind
  · exact isQuiet_omission (eachOf _)
  · exact isQuiet_omission (eachOf _)
  · intro above
    apply isUnnoticed_omission (otherKind.trans labelKind.symm) (by decide) (eachOf _)
    · exact fun isFunction => Kind.noConfusion (labelKind.symm.trans isFunction)
    · intro pair _
      rw [labelKind]
      constructor <;>
        · intro impossible
          cases impossible
  · intro above noBody
    apply isUnnoticed_omission (otherBlockKind.trans blockKind.symm) (by decide) (eachOf _)
    · exact fun isFunction => Kind.noConfusion (blockKind.symm.trans isFunction)
    · intro pair member
      rw [blockKind]
      refine ⟨fun impossible => Kind.noConfusion impossible, fun _ => ?_, fun _ isBody => ?_⟩
      · apply tolerates.statement (Or.inl isCase) pair
        rwa [statements, isCase, if_pos rfl]
      · rw [noBody] at isBody
        cases isBody

end Node

/-- Where no test misses the chosen comments, a node is seen as without them. -/
theorem seenAlikeWithout (distinct : node.Distinct)
    (tolerates : ∀ visited ∈ node.visible.preorder, Tolerates chosen visited) :
    SeenAlikeWithout source chosen node := by
  induction node using Rose.induct with
  | node label children inductionHypothesis =>
      have each : ∀ child ∈ visibleChildren (.node label children), isKept chosen child = true →
          SeenAlikeWithout source chosen child := by
        intro child visible _
        have listed := (List.mem_filter.mp visible).1
        apply inductionHypothesis child listed (distinct.child listed)
        intro visited inside
        exact tolerates visited (preorder_visible_subset visible inside)
      have here : Tolerates chosen (.node label children) := by
        apply tolerates
        rw [visible_eq, preorder]
        exact List.mem_cons_self
      cases collapsed : isCollapsed (.node label children) with
      | true => exact SeenAlikeWithout.of_collapsed each collapsed
      | false =>
          cases isCase : Concrete.isCase (.node label children) with
          | true => exact SeenAlikeWithout.of_case each isCase here
          | false => exact SeenAlikeWithout.of_plain each collapsed isCase distinct here

end Concrete

namespace Script

open Concrete Lowering

/-- A script without the chosen comments. -/
def without (script : Script) (chosen : Int → Bool) : Script :=
  { script with root := script.root.without chosen }

/-- Leaving out comments where no test misses them changes nothing of what a check finds and
notes. -/
theorem check_without (script : Script) (chosen : Int → Bool) (distinct : script.root.Distinct)
    (tolerates : ∀ visited ∈ script.root.visible.preorder, Tolerates chosen visited)
    (names : List String) (path : Option String) :
    (script.without chosen).check names path = script.check names path := by
  have seen : SeenAlikeWithout script.source chosen script.root :=
    seenAlikeWithout distinct tolerates
  have alike := seen.sightings [] [] (.nil _)
  have same : Tree.sightings [] (script.without chosen).syntaxTree =
      Tree.sightings [] script.syntaxTree := by
    rw [syntaxTree, syntaxTree, lower?_eq _ distinct, without,
      lower?_eq _ (distinct.without chosen), Option.getD_some, Option.getD_some,
      sightings_wrapProgram, sightings_wrapProgram, alike]
  rw [check, check, Tree.check_eq, Tree.check_eq, same]
  rfl

/-- A function of a call and a `return`, with other statements between them. -/
def callThenReturn (between : List Concrete) : Concrete :=
  .node { type := "program", identity := 1, stop := 43 } [
    .node { type := "function_declaration", identity := 2, stop := 43 } [
      .node { type := "identifier", field := some "name", identity := 3,
              column := 9, start := 9, stop := 10 } [],
      .node { type := "formal_parameters", field := some "parameters", identity := 4,
              column := 10, start := 10, stop := 12 } [],
      .node { type := "statement_block", field := some "body", identity := 5,
              column := 13, start := 13, stop := 43 } (
        .node { type := "expression_statement", identity := 6,
                column := 15, start := 15, stop := 26 } [
          .node { type := "call_expression", identity := 7,
                  column := 15, start := 15, stop := 25 } [
            .node { type := "identifier", field := some "function", identity := 8,
                    column := 15, start := 15, stop := 23 } [],
            .node { type := "arguments", field := some "arguments", identity := 9,
                    column := 23, start := 23, stop := 25 } []]] ::
        between ++
        [.node { type := "return_statement", identity := 10, row := 1,
                 start := 34, stop := 41 } []])]]

def markupComment : Concrete :=
  .node { type := "html_comment", identity := 11, column := 27, start := 27, stop := 33 } []

def markedFunction : Script where
  source := "function f() \x7b callback(); <!-- c\nreturn; \x7d".toUTF8.toList
  root := .node { type := "program", identity := 1, stop := 43 }
    (markupComment :: (callThenReturn []).children)

theorem check_without_markedFunction :
    markedFunction.root.Distinct ∧
      (∀ visited ∈ markedFunction.root.visible.preorder, Tolerates (fun _ => true) visited) ∧
      (markedFunction.without fun _ => true).check ["callback"] none =
        markedFunction.check ["callback"] none := by
  have distinct : markedFunction.root.Distinct := by decide
  have tolerates : ∀ visited ∈ markedFunction.root.visible.preorder,
      Tolerates (fun _ => true) visited := by decide +kernel
  exact ⟨distinct, tolerates,
    check_without markedFunction (fun _ => true) distinct tolerates ["callback"] none⟩

/-- A comment between a call and the `return` after it. -/
def interruptedReturn : Script where
  source := "function f() \x7b callback(); <!-- c\nreturn; \x7d".toUTF8.toList
  root := callThenReturn [markupComment]

theorem check_interruptedReturn :
    interruptedReturn.root.Distinct ∧
      ((interruptedReturn.without fun _ => true).check ["callback"] none).diagnostics = [] ∧
      (interruptedReturn.check ["callback"] none).diagnostics =
        [.missingReturn none ⟨1, 16⟩] := by
  have distinct : interruptedReturn.root.Distinct := by decide
  refine ⟨distinct, ?_, ?_⟩
  · rw [check, Tree.check_eq, syntaxTree, without, lower?_eq _ (distinct.without _)]
    decide +kernel
  · rw [check, Tree.check_eq, syntaxTree, lower?_eq _ distinct]
    decide +kernel

end Script

end CallbackLint
