import CallbackLint.Proofs.Concrete.Reading
import CallbackLint.Proofs.Concrete.Table

namespace CallbackLint

open Rose

/-!
# What lowering makes of one node

A collapsed node becomes what its child becomes.  A branch of a `switch` becomes
two nodes, one for the branch and one for its statements.  Every other node becomes
one node, and its kind tells which constructs it may come from.
-/

namespace Concrete

open Lowering

/-! ## Kinds of constructs -/

/-- The kind of the node that a construct becomes if it is not collapsed. -/
def kind (node : Concrete) : Kind :=
  if wrapperTypes.contains node.value.type then .other
  else if isCall node then .call
  else if functionTypes.contains node.value.type then .function
  else if node.isCase then .switchCase
  else plainKind node

/-- The constructs of each kind.  Nothing is asked of the last kind, so this says what a node of
another kind must be, and not yet which kind a node has. -/
inductive HasKind (node : Concrete) : Kind → Prop
  | call : isCall node = true → HasKind node .call
  | function : functionTypes.contains node.value.type = true → HasKind node .function
  | switchCase : node.isCase = true → HasKind node .switchCase
  | logicalAnd : node.value.type = "binary_expression" →
      node.typeInRole? "operator" = some "&&" → HasKind node .logicalAnd
  | loop : loopTypes.contains node.value.type = true → HasKind node .loop
  | program : node.value.type = "program" → HasKind node .program
  | block : node.value.type = "statement_block" → HasKind node .block
  | expressionStatement : node.value.type = "expression_statement" →
      HasKind node .expressionStatement
  | returnStatement : node.value.type = "return_statement" → HasKind node .returnStatement
  | ifStatement : node.value.type = "if_statement" → HasKind node .ifStatement
  | switchStatement : node.value.type = "switch_statement" → HasKind node .switchStatement
  | other : HasKind node .other

theorem hasKind_plainKind (node : Concrete) : HasKind node (plainKind node) := by
  rw [plainKind]
  by_cases logicalAnd : (decide (node.value.type = "binary_expression") &&
      node.typeInRole? "operator" == some "&&") = true
  · rw [if_pos logicalAnd]
    rw [Bool.and_eq_true, decide_eq_true_eq, beq_iff_eq] at logicalAnd
    exact .logicalAnd logicalAnd.1 logicalAnd.2
  rw [if_neg logicalAnd]
  by_cases loop : loopTypes.contains node.value.type = true
  · rw [if_pos loop]
    exact .loop loop
  rw [if_neg loop]
  by_cases program : node.value.type = "program"
  · rw [if_pos program]
    exact .program program
  rw [if_neg program]
  by_cases block : node.value.type = "statement_block"
  · rw [if_pos block]
    exact .block block
  rw [if_neg block]
  by_cases expressionStatement : node.value.type = "expression_statement"
  · rw [if_pos expressionStatement]
    exact .expressionStatement expressionStatement
  rw [if_neg expressionStatement]
  by_cases returnStatement : node.value.type = "return_statement"
  · rw [if_pos returnStatement]
    exact .returnStatement returnStatement
  rw [if_neg returnStatement]
  by_cases ifStatement : node.value.type = "if_statement"
  · rw [if_pos ifStatement]
    exact .ifStatement ifStatement
  rw [if_neg ifStatement]
  by_cases switchStatement : node.value.type = "switch_statement"
  · rw [if_pos switchStatement]
    exact .switchStatement switchStatement
  · rw [if_neg switchStatement]
    exact .other

theorem hasKind (node : Concrete) : HasKind node node.kind := by
  rw [kind]
  by_cases wrapper : wrapperTypes.contains node.value.type = true
  · rw [if_pos wrapper]
    exact .other
  rw [if_neg wrapper]
  by_cases call : isCall node = true
  · rw [if_pos call]
    exact .call call
  rw [if_neg call]
  by_cases function : functionTypes.contains node.value.type = true
  · rw [if_pos function]
    exact .function function
  rw [if_neg function]
  by_cases switchCase : node.isCase = true
  · rw [if_pos switchCase]
    exact .switchCase switchCase
  · rw [if_neg switchCase]
    exact hasKind_plainKind node

/-- The constructs whose kind is told by their type alone. -/
def plainTypes : List (Kind × String) :=
  [(.program, "program"), (.block, "statement_block"),
    (.expressionStatement, "expression_statement"), (.returnStatement, "return_statement"),
    (.ifStatement, "if_statement"), (.switchStatement, "switch_statement")]

variable {node : Concrete}

theorem kind_eq_iff {kind : Kind} {type : String} (listed : (kind, type) ∈ plainTypes) :
    node.kind = kind ↔ node.value.type = type := by
  simp only [plainTypes, List.mem_cons, List.not_mem_nil, or_false, Prod.mk.injEq] at listed
  have found := hasKind node
  constructor
  · intro kindEq
    rw [kindEq] at found
    rcases listed with ⟨same, rfl⟩ | ⟨same, rfl⟩ | ⟨same, rfl⟩ | ⟨same, rfl⟩ | ⟨same, rfl⟩ |
      ⟨same, rfl⟩ <;>
      (rw [same] at found; cases found; assumption)
  · intro typeEq
    rcases listed with ⟨rfl, rfl⟩ | ⟨rfl, rfl⟩ | ⟨rfl, rfl⟩ | ⟨rfl, rfl⟩ | ⟨rfl, rfl⟩ |
      ⟨rfl, rfl⟩ <;>
      (unfold Concrete.kind plainKind isCall isCase; rw [typeEq]; rfl)

theorem kind_eq_program_iff : node.kind = .program ↔ node.value.type = "program" :=
  kind_eq_iff (by decide)

theorem kind_eq_block_iff : node.kind = .block ↔ node.value.type = "statement_block" :=
  kind_eq_iff (by decide)

theorem kind_eq_expressionStatement_iff :
    node.kind = .expressionStatement ↔ node.value.type = "expression_statement" :=
  kind_eq_iff (by decide)

theorem kind_eq_returnStatement_iff :
    node.kind = .returnStatement ↔ node.value.type = "return_statement" :=
  kind_eq_iff (by decide)

theorem kind_eq_ifStatement_iff :
    node.kind = .ifStatement ↔ node.value.type = "if_statement" :=
  kind_eq_iff (by decide)

theorem kind_eq_switchStatement_iff :
    node.kind = .switchStatement ↔ node.value.type = "switch_statement" :=
  kind_eq_iff (by decide)

theorem kind_eq_function_iff :
    node.kind = .function ↔ functionTypes.contains node.value.type = true := by
  constructor
  · intro kindEq
    have found := hasKind node
    rw [kindEq] at found
    cases found
    assumption
  · intro listed
    simp only [List.contains_iff_mem, functionTypes, List.mem_cons, List.not_mem_nil,
      or_false] at listed
    rcases listed with typeEq | typeEq | typeEq | typeEq | typeEq | typeEq | typeEq <;>
      (unfold kind isCall; rw [typeEq]; rfl)

theorem kind_eq_switchCase_iff : node.kind = .switchCase ↔ node.isCase = true := by
  constructor
  · intro kindEq
    have found := hasKind node
    rw [kindEq] at found
    cases found
    assumption
  · intro isCase
    have listed := isCase
    simp only [Concrete.isCase, List.contains_iff_mem, caseTypes, List.mem_cons,
      List.not_mem_nil, or_false] at listed
    rcases listed with typeEq | typeEq <;>
      (unfold kind isCall Concrete.isCase; rw [typeEq]; rfl)

theorem kind_eq_logicalAnd_iff :
    node.kind = .logicalAnd ↔
      node.value.type = "binary_expression" ∧ node.typeInRole? "operator" = some "&&" := by
  constructor
  · intro kindEq
    have found := hasKind node
    rw [kindEq] at found
    cases found
    exact ⟨by assumption, by assumption⟩
  · rintro ⟨typeEq, operator⟩
    unfold kind plainKind isCall isCase
    rw [typeEq, operator]
    rfl

theorem kind_eq_call_iff : node.kind = .call ↔ isCall node = true := by
  constructor
  · intro kindEq
    have found := hasKind node
    rw [kindEq] at found
    cases found
    assumption
  · intro call
    have typeEq := call
    rw [isCall, Bool.and_eq_true, beq_iff_eq] at typeEq
    unfold kind
    rw [call, typeEq.1]
    rfl

theorem kind_eq_loop_iff : node.kind = .loop ↔ loopTypes.contains node.value.type = true := by
  constructor
  · intro kindEq
    have found := hasKind node
    rw [kindEq] at found
    cases found
    assumption
  · intro listed
    simp only [List.contains_iff_mem, loopTypes, List.mem_cons, List.not_mem_nil,
      or_false] at listed
    rcases listed with typeEq | typeEq | typeEq | typeEq | typeEq <;>
      (unfold kind plainKind isCall isCase; rw [typeEq]; rfl)

/-- A wrapper is a construct of no other kind. -/
theorem kind_of_wrapper (wrapper : wrapperTypes.contains node.value.type = true) :
    node.kind = .other := by
  rw [kind, if_pos wrapper]

/-! ## Collapsed nodes -/

theorem stripAll_eq (children : List Concrete) :
    stripAll children = (children.filter fun child => child.value.isVisible).map strip := by
  induction children with
  | nil => rfl
  | cons child rest inductionHypothesis =>
      rcases child with ⟨label, below⟩
      rw [stripAll, List.filter_cons, value_node, inductionHypothesis]
      cases label.isVisible <;> rfl

/-- A collapsed node has one visible child. -/
theorem exists_of_isCollapsed (collapsed : node.isCollapsed = true) :
    wrapperTypes.contains node.value.type = true ∧ ∃ inner, node.visibleChildren = [inner] := by
  rw [isCollapsed, Bool.and_eq_true, beq_iff_eq, List.length_eq_one_iff] at collapsed
  exact collapsed

theorem strip_of_collapsed {inner : Concrete} (collapsed : node.isCollapsed = true)
    (single : node.visibleChildren = [inner]) : node.strip = inner.strip := by
  have wrapper := (exists_of_isCollapsed collapsed).1
  rcases node with ⟨label, children⟩
  have stripped : stripAll children = [inner.strip] := by
    rw [stripAll_eq]
    exact congrArg (List.map strip) single
  rw [value_node] at wrapper
  rw [strip, wrapper, stripped]

theorem strip_of_not_collapsed (notCollapsed : node.isCollapsed = false) : node.strip = node := by
  rcases node with ⟨label, children⟩
  rw [strip]
  split
  · rename_i inner wrapper stripped
    have length := congrArg List.length stripped
    rw [stripAll_eq, List.length_map, List.length_singleton] at length
    rw [isCollapsed, value_node, wrapper, Bool.true_and, beq_eq_false_iff_ne] at notCollapsed
    exact False.elim (notCollapsed length)
  · rfl

/-! ## What a node becomes -/

variable (source : List UInt8)

theorem lowerDirectly_of_collapsed {inner : Concrete} (collapsed : node.isCollapsed = true)
    (single : node.visibleChildren = [inner]) :
    lowerDirectly source node = lowerDirectly source inner := by
  have wrapper := (exists_of_isCollapsed collapsed).1
  rw [lowerDirectly_eq, single, build, if_pos wrapper]
  rfl

/-- A node among hidden siblings is the only visible child. -/
theorem visibleChildren_fill {crumb : Crumb ConcreteLabel} (shown : node.value.isVisible = true)
    (hidden : ∀ sibling ∈ crumb.before ++ crumb.after, sibling.value.isVisible = false) :
    visibleChildren (crumb.fill node) = [node] := by
  have none : ∀ others : List Concrete, (∀ other ∈ others, other.value.isVisible = false) →
      others.filter (fun child => child.value.isVisible) = [] := by
    intro others allHidden
    apply List.filter_eq_nil_iff.mpr
    intro other member
    rw [allHidden other member]
    exact Bool.false_ne_true
  rw [visibleChildren, Crumb.fill, children_node, List.filter_append, List.filter_cons, shown,
    if_pos rfl, none crumb.before fun other member => hidden other (List.mem_append_left _ member),
    none crumb.after fun other member => hidden other (List.mem_append_right _ member)]
  rfl

/-- A pair of parentheses, with what stands between them besides a single visible node. -/
structure IsParentheses (layer : Crumb ConcreteLabel) : Prop where
  type : layer.value.type = "parenthesized_expression"
  named : layer.value.named = true
  hidden : ∀ sibling ∈ layer.before ++ layer.after, sibling.value.isVisible = false

theorem IsParentheses.isVisible {layer : Crumb ConcreteLabel} (parentheses : IsParentheses layer) :
    layer.value.isVisible = true := by
  rw [ConcreteLabel.isVisible, parentheses.named, parentheses.type]
  rfl

/-- Parentheses give way to what they wrap. -/
theorem lowerDirectly_of_parentheses {layer : Crumb ConcreteLabel}
    (parentheses : IsParentheses layer) (shown : node.value.isVisible = true) :
    lowerDirectly source (layer.fill node) = lowerDirectly source node := by
  have single := visibleChildren_fill shown parentheses.hidden
  have collapsed : isCollapsed (layer.fill node) = true := by
    rw [isCollapsed, single, Crumb.fill, value_node, parentheses.type]
    rfl
  exact lowerDirectly_of_collapsed source collapsed single

/-- What the node of a construct says about itself. -/
structure IsLabelOf (node : Concrete) (label : Label) : Prop where
  kind : label.kind = node.kind
  position : label.position = node.value.position source
  callee : label.kind = .call → label.callee = calleeOf? source node
  body : label.kind = .function → label.body =
    bodyPlace? node ((entriesOf source node.visibleChildren).map fun entry =>
      (entry.1, some entry.2))

theorem present_entriesOf (nodes : List Concrete) :
    present ((entriesOf source nodes).map fun entry => (entry.1, some entry.2)) =
      nodes.map (lowerDirectly source) := by
  induction nodes with
  | nil => rfl
  | cons node rest inductionHypothesis =>
      exact congrArg (List.cons (lowerDirectly source node)) inductionHypothesis

/-- A node that is neither collapsed nor a branch becomes one node, over what its
visible children become. -/
theorem lowerDirectly_of_plain (notCollapsed : node.isCollapsed = false)
    (noCase : node.isCase = false) :
    ∃ label, IsLabelOf source node label ∧
      lowerDirectly source node =
        .node label (node.visibleChildren.map (lowerDirectly source)) := by
  rw [lowerDirectly_eq, build, present_entriesOf]
  by_cases wrapper : wrapperTypes.contains node.value.type = true
  · have single : node.visibleChildren.length ≠ 1 := by
      rw [isCollapsed, wrapper, Bool.true_and, beq_eq_false_iff_ne] at notCollapsed
      exact notCollapsed
    rw [if_pos wrapper]
    refine ⟨{ kind := .other, position := node.value.position source }, ⟨?_, ?_, ?_, ?_⟩, ?_⟩
    · exact (kind_of_wrapper wrapper).symm
    · rfl
    · intro impossible
      cases impossible
    · intro impossible
      cases impossible
    · rcases visible : node.visibleChildren with _ | ⟨first, _ | ⟨second, rest⟩⟩
      · rfl
      · rw [visible] at single
        exact False.elim (single rfl)
      · rfl
  rw [if_neg wrapper]
  by_cases call : isCall node = true
  · rw [if_pos call]
    refine ⟨_, ⟨?_, ?_, ?_, ?_⟩, rfl⟩
    · exact (kind_eq_call_iff.mpr call).symm
    · rfl
    · exact fun _ => rfl
    · intro impossible
      cases impossible
  rw [if_neg call]
  by_cases function : functionTypes.contains node.value.type = true
  · rw [if_pos function]
    refine ⟨_, ⟨?_, ?_, ?_, ?_⟩, rfl⟩
    · exact (kind_eq_function_iff.mpr function).symm
    · rfl
    · intro impossible
      cases impossible
    · exact fun _ => rfl
  have refused : ¬ caseTypes.contains node.value.type = true := ne_true_of_eq_false noCase
  have kindEq : node.kind = plainKind node := by
    rw [kind, if_neg wrapper, if_neg call, if_neg function, isCase, if_neg refused]
  rw [if_neg function, if_neg refused]
  refine ⟨_, ⟨kindEq.symm, rfl, ?_, ?_⟩, rfl⟩
  · intro isCall
    exact False.elim (call (kind_eq_call_iff.mp (kindEq.trans isCall)))
  · intro isFunction
    exact False.elim (function (kind_eq_function_iff.mp (kindEq.trans isFunction)))

theorem present_filter_entriesOf (chosen : Int → Bool) (nodes : List Concrete) :
    present (((entriesOf source nodes).map fun entry => (entry.1, some entry.2)).filter
        fun child => chosen child.1) =
      (nodes.filter fun node => chosen node.value.identity).map (lowerDirectly source) := by
  rw [← present_entriesOf, entriesOf, entriesOf, List.map_map, List.filter_map, List.map_map]
  rfl

theorem build_of_case (isCase : node.isCase = true) (lowered : Lowered) :
    build source node lowered = buildCase node lowered (node.value.position source) := by
  have kindEq := kind_eq_switchCase_iff.mpr isCase
  have noWrapper : ¬ wrapperTypes.contains node.value.type = true := fun wrapper =>
    Kind.noConfusion (kindEq.symm.trans (kind_of_wrapper wrapper))
  have noCall : ¬ isCall node = true := fun call =>
    Kind.noConfusion (kindEq.symm.trans (kind_eq_call_iff.mpr call))
  have noFunction : ¬ functionTypes.contains node.value.type = true := fun function =>
    Kind.noConfusion (kindEq.symm.trans (kind_eq_function_iff.mpr function))
  have isBranch : caseTypes.contains node.value.type = true := isCase
  rw [build, if_neg noWrapper, if_neg noCall, if_neg noFunction, if_pos isBranch]

/-- A branch becomes two nodes: its value stays below the first, and its statements
go below the second. -/
theorem lowerDirectly_of_case (isCase : node.isCase = true) :
    ∃ label blockLabel, label.kind = .switchCase ∧ blockLabel.kind = .block ∧
      lowerDirectly source node = .node label
        ((node.visibleChildren.filter (fun child => node.isInRole "value" child)).map
            (lowerDirectly source) ++
          [.node blockLabel ((node.visibleChildren.filter
            (fun child => !node.isInRole "value" child)).map (lowerDirectly source))]) := by
  rw [lowerDirectly_eq, build_of_case source isCase, buildCase]
  have values := present_filter_entriesOf source
    (fun identity => node.identityInRole? "value" == some identity) node.visibleChildren
  have statements := present_filter_entriesOf source
    (fun identity => node.identityInRole? "value" != some identity) node.visibleChildren
  rw [values, statements]
  refine ⟨_, _, ?_, ?_, rfl⟩
  · rfl
  · rfl

/-- Through collapsed nodes, a node becomes one of the kind of what remains. -/
theorem kind_lowerDirectly (node : Concrete) :
    (lowerDirectly source node).kind = node.strip.kind := by
  induction node using Rose.induct with
  | node label children inductionHypothesis =>
      cases collapsed : isCollapsed (.node label children) with
      | true =>
          rcases (exists_of_isCollapsed collapsed).2 with ⟨inner, single⟩
          have member : inner ∈ children := by
            have visible : inner ∈ visibleChildren (.node label children) :=
              single ▸ List.mem_cons_self
            exact (List.mem_filter.mp visible).1
          rw [lowerDirectly_of_collapsed source collapsed single,
            strip_of_collapsed collapsed single, inductionHypothesis inner member]
      | false =>
          rw [strip_of_not_collapsed collapsed]
          cases isCase : Concrete.isCase (.node label children) with
          | true =>
              rcases lowerDirectly_of_case source isCase with ⟨own, _, kindEq, _, shape⟩
              rw [shape, kind_eq_switchCase_iff.mpr isCase]
              exact kindEq
          | false =>
              rcases lowerDirectly_of_plain source collapsed isCase with ⟨own, isLabel, shape⟩
              rw [shape]
              exact isLabel.kind

/-- A node that is not collapsed becomes one at its own position. -/
theorem position_lowerDirectly (notCollapsed : node.isCollapsed = false) :
    (lowerDirectly source node).position = node.value.position source := by
  cases isCase : node.isCase with
  | true =>
      rw [lowerDirectly_eq, build_of_case source isCase]
      rfl
  | false =>
      rcases lowerDirectly_of_plain source notCollapsed isCase with ⟨label, isLabel, shape⟩
      rw [shape]
      exact isLabel.position

/-! ## The place of a body -/

section Body

variable {identity : Int} {place : Nat} {found : Option Nat}

theorem placeOf_of_absent {entries : Results}
    (absent : ∀ entry ∈ entries, entry.1 ≠ identity) :
    placeOf identity place found (entries.map fun entry => (entry.1, some entry.2)) = found := by
  induction entries generalizing place with
  | nil => rfl
  | cons entry rest inductionHypothesis =>
      rw [List.map_cons, placeOf, if_neg (absent entry List.mem_cons_self)]
      exact inductionHypothesis fun other member => absent other (List.mem_cons_of_mem _ member)

/-- The last entry of an identity gives the place. -/
theorem placeOf_of_split {left right : Results} {tree : Tree}
    (absent : ∀ entry ∈ right, entry.1 ≠ identity) :
    placeOf identity place found
      ((left ++ (identity, tree) :: right).map fun entry => (entry.1, some entry.2)) =
        some (place + left.length) := by
  induction left generalizing place found with
  | nil =>
      rw [List.nil_append, List.map_cons, placeOf, if_pos rfl]
      exact placeOf_of_absent absent
  | cons entry left inductionHypothesis =>
      rw [List.cons_append, List.map_cons, placeOf, inductionHypothesis, List.length_cons,
        Nat.add_right_comm, Nat.add_assoc]

/-- With different identities, every child is found at its own place. -/
theorem placeOf_child (distinct :
      ((node.visibleChildren.map Rose.value).map ConcreteLabel.identity).Nodup)
    {left right : List Concrete} {child : Concrete}
    (split : node.visibleChildren = left ++ child :: right) :
    placeOf child.value.identity 0 none ((entriesOf source node.visibleChildren).map
      fun entry => (entry.1, some entry.2)) = some left.length := by
  rw [split, List.map_append, List.map_append, List.map_cons, List.map_cons] at distinct
  have apart := (List.nodup_cons.mp (List.nodup_append.mp distinct).2.1).1
  have absent : ∀ entry ∈ entriesOf source right, entry.1 ≠ child.value.identity := by
    intro entry member same
    rw [← map_fst_entriesOf source] at apart
    exact apart (same ▸ List.mem_map_of_mem member)
  have entries : entriesOf source (left ++ child :: right) = entriesOf source left ++
      (child.value.identity, lowerDirectly source child) :: entriesOf source right := by
    rw [entriesOf, List.map_append]
    rfl
  rw [split, entries, placeOf_of_split absent, Nat.zero_add, entriesOf, List.length_map]

/-- With different identities, the place of the body is that of the child in this
role. -/
theorem bodyPlace?_eq (distinct :
      ((node.visibleChildren.map Rose.value).map ConcreteLabel.identity).Nodup)
    {left right : List Concrete} {child : Concrete}
    (split : node.visibleChildren = left ++ child :: right) :
    (bodyPlace? node ((entriesOf source node.visibleChildren).map fun entry =>
        (entry.1, some entry.2)) == some left.length) = node.isInRole "body" child := by
  rw [bodyPlace?, isInRole]
  cases role : node.identityInRole? "body" with
  | none => rfl
  | some identity =>
      rw [Option.bind_some]
      apply Bool.eq_iff_iff.mpr
      rw [beq_iff_eq, beq_iff_eq, Option.some.injEq]
      constructor
      · intro here
        by_cases listed : ∃ other ∈ node.visibleChildren, other.value.identity = identity
        · rcases listed with ⟨other, member, same⟩
          rcases List.append_of_mem member with ⟨before, after, otherSplit⟩
          rw [← same, placeOf_child source distinct otherSplit, Option.some.injEq] at here
          have aligned := List.append_inj (otherSplit.symm.trans split) here
          rw [← same, (List.cons.inj aligned.2).1]
        · have absent : ∀ entry ∈ entriesOf source node.visibleChildren, entry.1 ≠ identity := by
            intro entry member same
            rcases List.mem_map.mp member with ⟨other, otherMember, entryEq⟩
            exact listed ⟨other, otherMember, by rw [← same, ← entryEq]⟩
          rw [placeOf_of_absent absent] at here
          cases here
      · intro same
        rw [same]
        exact placeOf_child source distinct split

end Body

/-! ## Reading order -/

theorem readingAll_eq (children : List Concrete) :
    readingAll children = (children.filter fun child => child.value.isVisible).map reading := by
  induction children with
  | nil => rfl
  | cons child rest inductionHypothesis =>
      rcases child with ⟨label, below⟩
      rw [readingAll, List.filter_cons, value_node, inductionHypothesis]
      cases label.isVisible <;> rfl

theorem reading_eq (node : Concrete) :
    node.reading = .node node (valueFirst node (node.visibleChildren.map reading)) := by
  rcases node with ⟨label, children⟩
  rw [reading, readingAll_eq]
  rfl

theorem map_value_reading (nodes : List Concrete) :
    (nodes.map reading).map Rose.value = nodes := by
  rw [List.map_map]
  have each : ∀ node ∈ nodes, (Rose.value ∘ reading) node = id node := by
    intro node _
    rw [Function.comp_apply, reading_eq, value_node, id_eq]
  rw [List.map_congr_left each, List.map_id]

theorem valueFirst_of_case (isCase : node.isCase = true) (nodes : List Concrete) :
    valueFirst node (nodes.map reading) =
      (nodes.filter fun child => node.isInRole "value" child).map reading ++
        (nodes.filter fun child => !node.isInRole "value" child).map reading := by
  have root : ∀ child : Concrete, child.reading.value = child := fun child => by
    rw [reading_eq, value_node]
  rw [valueFirst, if_pos isCase, List.filter_map, List.filter_map]
  simp only [Function.comp_def, root]

end Concrete

end CallbackLint
