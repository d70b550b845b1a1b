import CallbackLint.Proofs.Concrete.Assembly
import CallbackLint.Proofs.Concrete.Shape
import CallbackLint.Proofs.Syntax.WellFormed

namespace CallbackLint

open Rose

/-!
# Lowering makes well-formed trees

Building a node from trees whose labels fit gives a tree whose labels fit, whatever
the construct and whichever results its children left in the table.  So this is
an invariant of the table, and the linked nodes of every script are a well-formed
syntax tree.

If all identities differ, then the functions of the tree are those that the script
has, and the body of a function is what the construct in this role becomes.
-/

namespace Lowering

/-! ## What is built fits -/

theorem isFit_plain {kind : Kind} {position : Position} {children : List Tree}
    (noCase : kind ≠ .switchCase) (fits : ∀ child ∈ children, child.IsFit) :
    (Tree.plain kind position children).IsFit := by
  apply Tree.isFit_node_iff.mpr
  refine ⟨⟨?_, ?_, ?_⟩, fits⟩
  · intro named
    exact False.elim (named rfl)
  · intro index placed
    cases placed
  · intro isCase
    exact False.elim (noCase isCase)

/-- The place of a body is the place of a tree. -/
theorem placeOf_lt {identity : Int} {place index : Nat} {found : Option Nat} {lowered : Lowered}
    (inside : ∀ earlier, found = some earlier → earlier < place)
    (placed : placeOf identity place found lowered = some index) :
    index < place + (present lowered).length := by
  induction lowered generalizing place found with
  | nil => exact inside index placed
  | cons child rest inductionHypothesis =>
      rcases child with ⟨other, result⟩
      cases result with
      | none =>
          rw [placeOf] at placed
          apply inductionHypothesis _ placed
          intro earlier foundEq
          by_cases same : other = identity
          · rw [if_pos same] at foundEq
            cases foundEq
          · rw [if_neg same] at foundEq
            exact inside earlier foundEq
      | some tree =>
          have length : (present ((other, some tree) :: rest)).length =
              (present rest).length + 1 := rfl
          rw [placeOf] at placed
          rw [length, Nat.add_comm _ 1, ← Nat.add_assoc]
          apply inductionHypothesis _ placed
          intro earlier foundEq
          by_cases same : other = identity
          · rw [if_pos same, Option.some.injEq] at foundEq
            omega
          · rw [if_neg same] at foundEq
            have smaller := inside earlier foundEq
            omega

theorem bodyPlace?_lt {node : Concrete} {lowered : Lowered} {index : Nat}
    (placed : bodyPlace? node lowered = some index) : index < (present lowered).length := by
  rw [bodyPlace?, Option.bind_eq_some_iff] at placed
  rcases placed with ⟨identity, _, placed⟩
  have start : ∀ earlier, (none : Option Nat) = some earlier → earlier < 0 := by
    intro earlier impossible
    cases impossible
  have bound := placeOf_lt start placed
  rwa [Nat.zero_add] at bound

theorem isFit_buildCase {lowered : Lowered} (node : Concrete) (position : Position)
    (fits : ∀ tree ∈ present lowered, tree.IsFit) : (buildCase node lowered position).IsFit := by
  have among : ∀ chosen : Int × Option Tree → Bool, ∀ tree ∈ present (lowered.filter chosen),
      tree.IsFit := fun chosen tree member =>
    fits tree ((List.filter_sublist.filterMap Prod.snd).subset member)
  apply Tree.isFit_node_iff.mpr
  constructor
  · refine ⟨?_, ?_, ?_⟩
    · intro named
      exact False.elim (named rfl)
    · intro index placed
      cases placed
    · intro isCase
      rw [List.map_append, List.map_singleton, List.getLast?_concat]
      exact ⟨_, rfl, rfl⟩
  · intro child member
    rcases List.mem_append.mp member with value | block
    · exact among _ child value
    · rw [List.mem_singleton.mp block]
      exact isFit_plain (by decide) (among _)

theorem isFit_build {lowered : Lowered} (source : List UInt8) (node : Concrete)
    (fits : ∀ tree ∈ present lowered, tree.IsFit) : (build source node lowered).IsFit := by
  rw [build]
  by_cases wrapper : wrapperTypes.contains node.value.type = true
  · rw [if_pos wrapper]
    rcases inner : present lowered with _ | ⟨first, _ | ⟨second, rest⟩⟩
    · apply isFit_plain (by decide)
      intro child member
      cases member
    · exact fits first (inner ▸ List.mem_cons_self)
    · exact isFit_plain (by decide) (inner ▸ fits)
  rw [if_neg wrapper]
  by_cases call : isCall node = true
  · rw [if_pos call]
    refine Tree.isFit_node_iff.mpr ⟨⟨fun _ => rfl, ?_, ?_⟩, fits⟩
    · intro index placed
      cases placed
    · intro isCase
      cases isCase
  rw [if_neg call]
  by_cases function : functionTypes.contains node.value.type = true
  · rw [if_pos function]
    refine Tree.isFit_node_iff.mpr ⟨⟨?_, ?_, ?_⟩, fits⟩
    · intro named
      exact False.elim (named rfl)
    · intro index placed
      rw [List.length_map]
      exact ⟨rfl, bodyPlace?_lt placed⟩
    · intro isCase
      cases isCase
  rw [if_neg function]
  by_cases branch : caseTypes.contains node.value.type = true
  · rw [if_pos branch]
    exact isFit_buildCase node _ fits
  · rw [if_neg branch]
    apply isFit_plain _ fits
    intro isCase
    have found := Concrete.hasKind_plainKind node
    rw [isCase] at found
    cases found
    contradiction

/-! ## Where labels come from -/

section Labels

variable {property : Label → Prop} {lowered : Lowered}

/-- A block of statements is where the first of them is. -/
def IsBlockOf (first label : Label) : Prop :=
  label.position = first.position ∧ label.callee = none

/-- A label of a syntax node stands for a node of the concrete tree: it has its position, and its
callee if it has any. -/
def StandsFor (source : List UInt8) (node : Concrete) (label : Label) : Prop :=
  label.position = node.value.position source ∧
    ∀ callee ∈ label.callee, calleeOf? source node = some callee

theorem standsFor_of_none {source : List UInt8} {node : Concrete} {label : Label}
    (here : label.position = node.value.position source) (none : label.callee = none) :
    StandsFor source node label := by
  refine ⟨here, ?_⟩
  rw [none]
  intro callee impossible
  cases impossible

theorem forall_preorder_buildCase (node : Concrete) {position : Position}
    (own : ∀ label : Label, label.position = position → label.callee = none → property label)
    (block : ∀ first label, property first → IsBlockOf first label → property label)
    (below : ∀ tree ∈ present lowered, ∀ label ∈ tree.preorder, property label) :
    ∀ label ∈ (buildCase node lowered position).preorder, property label := by
  have among (chosen : Int × Option Tree → Bool) : ∀ tree ∈ present (lowered.filter chosen),
      ∀ label ∈ tree.preorder, property label := fun tree member =>
    below tree ((List.filter_sublist.filterMap Prod.snd).subset member)
  refine forall_preorder_iff.mpr ⟨own _ rfl rfl, ?_⟩
  rw [List.forall_mem_append, List.forall_mem_singleton]
  refine ⟨among _, forall_preorder_iff.mpr ⟨?_, among _⟩⟩
  cases statements : present (lowered.filter fun child =>
      node.identityInRole? "value" != some child.1) with
  | nil =>
      -- The block of no statements is where the branch is.
      exact own _ rfl rfl
  | cons first rest =>
      have inFirst : property first.value :=
        among _ first (statements ▸ List.mem_cons_self) _ first.value_mem_preorder
      exact block first.value _ inFirst ⟨rfl, rfl⟩

/-- A property that a node has, whatever it was built of, and that blocks have with their first
statements, holds of all labels of what is built. -/
theorem forall_preorder_build {source : List UInt8} {node : Concrete}
    (own : ∀ label, StandsFor source node label → property label)
    (block : ∀ first label, property first → IsBlockOf first label → property label)
    (below : ∀ tree ∈ present lowered, ∀ label ∈ tree.preorder, property label) :
    ∀ label ∈ (build source node lowered).preorder, property label := by
  have plain (label : Label) (here : label.position = node.value.position source)
      (none : label.callee = none) : property label := own label (standsFor_of_none here none)
  unfold build
  dsimp only
  split
  · split
    · next inner single => exact below inner (single ▸ List.mem_singleton_self inner)
    · exact forall_preorder_iff.mpr ⟨plain _ rfl rfl, below⟩
  · split
    · exact forall_preorder_iff.mpr ⟨own _ ⟨rfl, fun callee read => read⟩, below⟩
    · split
      · exact forall_preorder_iff.mpr ⟨plain _ rfl rfl, below⟩
      · split
        · exact forall_preorder_buildCase node plain block below
        · exact forall_preorder_iff.mpr ⟨plain _ rfl rfl, below⟩

end Labels

/-! ## Invariants of the table -/

section Invariant

variable {source : List UInt8} {motive : Tree → Prop}

theorem settle_induct {results : Results} (holds : ∀ tree ∈ results.map Prod.snd, motive tree)
    {node : Concrete} (built : ∀ lowered, (∀ tree ∈ present lowered, motive tree) →
      motive (build source node lowered)) :
    ∀ tree ∈ (settle source results node).map Prod.snd, motive tree := by
  have parts := Results.present_takeAll_perm results
    (node.visibleChildren.map fun child => child.value.identity)
  intro tree member
  rw [settle, Results.put, List.map_cons, List.mem_cons] at member
  rcases member with same | other
  · rw [same]
    apply built
    intro child taken
    exact holds child (parts.subset (List.mem_append_left _ taken))
  · have left := (List.filter_sublist.map Prod.snd).subset other
    exact holds tree (parts.subset (List.mem_append_right _ left))

/-- What building the nodes preserves holds of every result in the table, at any time. -/
theorem run_induct {results : Results} (holds : ∀ tree ∈ results.map Prod.snd, motive tree)
    (steps : List (Visit Concrete))
    (built : ∀ node, Visit.leave node ∈ steps → ∀ lowered,
      (∀ tree ∈ present lowered, motive tree) → motive (build source node lowered)) :
    ∀ tree ∈ (steps.foldl (step source) results).map Prod.snd, motive tree := by
  induction steps generalizing results with
  | nil => exact holds
  | cons visit steps inductionHypothesis =>
      have later := fun node member => built node (List.mem_cons_of_mem visit member)
      cases visit with
      | enter entered => exact inductionHypothesis holds later
      | leave parent =>
          exact inductionHypothesis (settle_induct holds (built parent List.mem_cons_self)) later

/-- What building the nodes of a tree preserves holds of what the tree becomes. -/
theorem lower?_induct {root : Concrete} {tree : Tree} (lowered : lower? source root = some tree)
    (built : ∀ node ∈ root.visible.preorder, ∀ lowered,
      (∀ tree ∈ present lowered, motive tree) → motive (build source node lowered)) :
    motive tree := by
  rw [lower?, table, guide_eq_foldl] at lowered
  have empty : ∀ tree ∈ ([] : Results).map Prod.snd, motive tree := by
    intro tree member
    cases member
  rcases Results.eq_of_get?_eq_some lowered with ⟨before, after, split, _⟩
  apply run_induct empty root.visible.visits fun node member =>
    built node (mem_preorder_of_leave_mem member)
  rw [split, List.map_append]
  exact List.mem_append_right _ List.mem_cons_self

end Invariant

end Lowering

namespace Script

open Lowering

/-- All labels of the syntax tree of a script fit. -/
theorem isFit_syntaxTree (script : Script) : script.syntaxTree.IsFit := by
  rcases exists_lower? script.source script.root with ⟨tree, lowered⟩
  have fit : tree.IsFit := lower?_induct lowered fun node _ _ => isFit_build script.source node
  rw [syntaxTree, lowered, Option.getD_some, wrapProgram]
  split
  · exact fit
  · exact isFit_plain (by decide) fun child member => List.mem_singleton.mp member ▸ fit

/-- A property that the nodes of a script have, and that blocks have with their first
statements, holds of all labels of the syntax tree. -/
theorem forall_preorder_syntaxTree {property : Label → Prop} (script : Script)
    (own : ∀ node ∈ script.root.visible.preorder, ∀ label,
      StandsFor script.source node label → property label)
    (block : ∀ first label, property first → IsBlockOf first label → property label) :
    ∀ label ∈ script.syntaxTree.preorder, property label := by
  rcases exists_lower? script.source script.root with ⟨tree, lowered⟩
  have inTree : ∀ label ∈ tree.preorder, property label :=
    @lower?_induct _ (fun tree => ∀ label ∈ tree.preorder, property label) _ _ lowered
      fun node member _ below => forall_preorder_build (own node member) block below
  have root : script.root ∈ script.root.visible.preorder := by
    rw [Concrete.visible_eq, preorder]
    exact List.mem_cons_self
  rw [syntaxTree, lowered, Option.getD_some, wrapProgram]
  split
  · exact inTree
  · refine forall_preorder_iff.mpr ⟨own _ root _ (standsFor_of_none rfl rfl), ?_⟩
    exact List.forall_mem_singleton.mpr inTree

end Script

namespace Concrete

/-! ## The functions of a tree -/

theorem preorder_visible_subset {node child : Concrete} (member : child ∈ node.visibleChildren) :
    child.visible.preorder ⊆ node.visible.preorder := by
  intro visited inside
  rw [visible_eq node, preorder]
  apply List.mem_cons_of_mem
  exact (preorder_sublist_preorderAll (List.mem_map_of_mem member)).subset inside

open Lowering

variable {source : List UInt8} {root node : Concrete}

/-- The functions that a node becomes are what functions below it become. -/
theorem exists_function {context : Context Label} {tree : Tree}
    (place : fill context tree = lowerDirectly source node) (isFunction : tree.kind = .function) :
    ∃ function ∈ node.visible.preorder, functionTypes.contains function.value.type = true ∧
      tree = lowerDirectly source function := by
  induction node using Rose.induct generalizing context with
  | node label children inductionHypothesis =>
      have below : ∀ child ∈ visibleChildren (.node label children), ∀ inner,
          fill inner tree = lowerDirectly source child →
          ∃ function ∈ (visible (.node label children)).preorder,
            functionTypes.contains function.value.type = true ∧
              tree = lowerDirectly source function := by
        intro child visible inner inside
        have member : child ∈ children := (List.mem_filter.mp visible).1
        rcases inductionHypothesis child member inside with ⟨function, listed, found⟩
        exact ⟨function, preorder_visible_subset visible listed, found⟩
      cases collapsed : isCollapsed (.node label children) with
      | true =>
          rcases (exists_of_isCollapsed collapsed).2 with ⟨inner, single⟩
          rw [lowerDirectly_of_collapsed source collapsed single] at place
          exact below inner (single ▸ List.mem_cons_self) context place
      | false =>
          cases isCase : Concrete.isCase (.node label children) with
          | true =>
              rcases lowerDirectly_of_case source isCase with
                ⟨own, blockOwn, kindEq, blockKindEq, shape⟩
              rw [shape] at place
              rcases eq_or_exists_mem_of_fill place with root | ⟨inner, listed⟩
              · rw [root] at isFunction
                exact Kind.noConfusion (kindEq.symm.trans isFunction)
              rcases List.mem_append.mp listed with value | block
              · rcases List.mem_map.mp value with ⟨child, chosen, same⟩
                exact below child (List.mem_filter.mp chosen).1 inner same.symm
              -- The block of the statements is no function either.
              rcases eq_or_exists_mem_of_fill (List.mem_singleton.mp block) with root | ⟨way, statement⟩
              · rw [root] at isFunction
                exact Kind.noConfusion (blockKindEq.symm.trans isFunction)
              · rcases List.mem_map.mp statement with ⟨child, chosen, same⟩
                exact below child (List.mem_filter.mp chosen).1 way same.symm
          | false =>
              rcases lowerDirectly_of_plain source collapsed isCase with ⟨own, isLabel, shape⟩
              rw [shape] at place
              rcases eq_or_exists_mem_of_fill place with root | ⟨inner, listed⟩
              · refine ⟨.node label children, ?_, ?_, ?_⟩
                · rw [visible_eq, preorder]
                  exact List.mem_cons_self
                · rw [root] at isFunction
                  exact kind_eq_function_iff.mp (isLabel.kind.symm.trans isFunction)
                · rw [root, shape]
              · rcases List.mem_map.mp listed with ⟨child, visible, same⟩
                exact below child visible inner same.symm

/-! ## The bodies of functions -/

theorem Distinct.visit {visited : Concrete} (distinct : node.Distinct)
    (member : visited ∈ node.visible.preorder) : visited.Distinct := by
  induction node using Rose.induct with
  | node label children inductionHypothesis =>
      rw [visible_eq, preorder] at member
      rcases List.mem_cons.mp member with root | below
      · rw [root]
        exact distinct
      · rcases exists_mem_of_mem_preorderAll below with ⟨tree, listed, inside⟩
        rcases List.mem_map.mp listed with ⟨child, visible, same⟩
        have among : child ∈ children := (List.mem_filter.mp visible).1
        rw [← same] at inside
        exact inductionHypothesis child among (distinct.child among) inside

/-- With different identities, a role has one child. -/
theorem isInRole_iff {role : String} {child : Concrete} (distinct : node.Distinct)
    (member : child ∈ node.children) :
    node.isInRole role child = true ↔ node.childInRole? role = some child := by
  have identities : (node.children.map fun other => other.value.identity).Nodup := by
    rcases node with ⟨label, children⟩
    rw [Distinct, preorder, List.map_cons, List.nodup_cons] at distinct
    have among := (map_value_sublist_preorderAll children).map ConcreteLabel.identity
    rw [List.map_map] at among
    exact distinct.2.sublist among
  rw [isInRole, identityInRole?, beq_iff_eq, Option.map_eq_some_iff]
  constructor
  · rintro ⟨first, found, same⟩
    have listed : first ∈ node.children := List.mem_of_find?_eq_some found
    rw [found, List.inj_on_of_nodup_map identities listed member same]
  · intro found
    exact ⟨child, found, rfl⟩

variable {store : Store} {context : Context (Nat × Label)} {name : Nat} {label : Label}
  {below : List (Rose (Nat × Label))}

/-- A function becomes a node over what its visible children become. -/
theorem lowerDirectly_of_function (source : List UInt8)
    (function : functionTypes.contains node.value.type = true) :
    ∃ label, lowerDirectly source node =
        .node label (node.visibleChildren.map (lowerDirectly source)) ∧
      label.body = bodyPlace? node ((entriesOf source node.visibleChildren).map fun entry =>
        (entry.1, some entry.2)) := by
  have kindEq := kind_eq_function_iff.mpr function
  have noCase : node.isCase = false := by
    rw [← Bool.not_eq_true, ← kind_eq_switchCase_iff, kindEq]
    decide
  have notCollapsed : node.isCollapsed = false := by
    rw [← Bool.not_eq_true]
    intro collapsed
    have wrapper := kind_of_wrapper (exists_of_isCollapsed collapsed).1
    exact Kind.noConfusion (kindEq.symm.trans wrapper)
  rcases lowerDirectly_of_plain source notCollapsed noCase with ⟨label, isLabel, shape⟩
  exact ⟨label, shape, isLabel.body (isLabel.kind.trans kindEq)⟩

/-- Where a store has what a function becomes, the body is at the place of the visible
child in this role. -/
theorem bodyOf?_eq_some_iff (records : store.Records (fill context (.node (name, label) below)))
    (distinct : node.Distinct) (function : functionTypes.contains node.value.type = true)
    (same : (Rose.node (name, label) below).map Prod.snd = lowerDirectly source node) {body : Nat} :
    store.bodyOf? name = some body ↔
      ∃ left child right, node.childInRole? "body" = some child ∧
        node.visibleChildren = left ++ child :: right ∧
        (store.childrenOf name)[left.length]? = some body := by
  rcases lowerDirectly_of_function source function with ⟨own, shape, bodyEq⟩
  rw [shape, map, mapAll_eq_map, Rose.node.injEq] at same
  have found : store.bodyOf? name =
      own.body.bind fun index => (store.childrenOf name)[index]? := by
    rw [← same.1, Store.bodyOf?, records.node?_eq, records.childrenOf_place]
    rfl
  have inRole : ∀ left child right, node.visibleChildren = left ++ child :: right →
      (own.body = some left.length ↔ node.childInRole? "body" = some child) := by
    intro left child right split
    have visible : child ∈ node.visibleChildren := by
      rw [split]
      exact List.mem_append_right _ List.mem_cons_self
    have role := bodyPlace?_eq source distinct.siblings split
    rw [← bodyEq] at role
    rw [← isInRole_iff distinct (List.mem_filter.mp visible).1, ← role, beq_iff_eq]
  rw [found, Option.bind_eq_some_iff]
  constructor
  · rintro ⟨index, placed, listed⟩
    have inside : index < node.visibleChildren.length := by
      have bound := (List.getElem?_eq_some_iff.mp listed).1
      have lengths := congrArg List.length same.2
      rw [records.childrenOf_place] at bound
      rw [List.length_map, List.length_map] at bound lengths
      omega
    rcases Store.exists_split_of_lt inside with ⟨left, child, right, split, length⟩
    rw [← length] at placed listed
    exact ⟨left, child, right, (inRole left child right split).mp placed, split, listed⟩
  · rintro ⟨left, child, right, role, split, listed⟩
    exact ⟨left.length, (inRole left child right split).mpr role, listed⟩

/-- The body of a node is what the child in this role becomes. -/
structure HasBody (store : Store) (source : List UInt8) (name : Nat) (node : Concrete) : Prop where
  present : (∃ body, store.bodyOf? name = some body) ↔
    ∃ child, node.childInRole? "body" = some child ∧ child.value.isVisible = true
  /-- The body has the place of this child among the visible children. -/
  lowered : ∀ body, store.bodyOf? name = some body →
    ∃ left child right, node.childInRole? "body" = some child ∧
      node.visibleChildren = left ++ child :: right ∧
      (store.childrenOf name)[left.length]? = some body ∧
      store.Spells body (lowerDirectly source child)

theorem hasBody (records : store.Records (fill context (.node (name, label) below)))
    (fit : Tree.IsFit ((fill context (.node (name, label) below)).map Prod.snd))
    (distinct : node.Distinct) (function : functionTypes.contains node.value.type = true)
    (same : (Rose.node (name, label) below).map Prod.snd = lowerDirectly source node) :
    HasBody store source name node := by
  have bodyIff := fun body => @bodyOf?_eq_some_iff source node store context name label below
    records distinct function same body
  rcases lowerDirectly_of_function source function with ⟨own, shape, _⟩
  rw [shape, map, mapAll_eq_map, Rose.node.injEq] at same
  have lengths := congrArg List.length same.2
  rw [List.length_map, List.length_map] at lengths
  have children := records.childrenOf_place
  constructor
  · constructor
    · rintro ⟨body, found⟩
      rcases (bodyIff body).mp found with ⟨left, child, right, role, split, _⟩
      have visible : child ∈ node.visibleChildren := by
        rw [split]
        exact List.mem_append_right _ List.mem_cons_self
      exact ⟨child, role, (List.mem_filter.mp visible).2⟩
    · rintro ⟨child, role, isVisible⟩
      have visible : child ∈ node.visibleChildren :=
        List.mem_filter.mpr ⟨List.mem_of_find?_eq_some role, isVisible⟩
      rcases List.append_of_mem visible with ⟨left, right, split⟩
      have inside : left.length < (store.childrenOf name).length := by
        rw [children, List.length_map, List.length_map, lengths, split, List.length_append,
          List.length_cons]
        omega
      exact ⟨_, (bodyIff _).mpr ⟨left, child, right, role, split,
        List.getElem?_eq_getElem inside⟩⟩
  · intro body found
    rcases (bodyIff body).mp found with ⟨left, child, right, role, split, listed⟩
    refine ⟨left, child, right, role, split, listed, ?_⟩
    have inside : left.length < below.length := by
      rw [lengths, split, List.length_append, List.length_cons]
      omega
    rcases Store.exists_split_of_lt inside with ⟨before, tree, after, parts, length⟩
    have here : (before ++ tree :: after)[before.length]? = some tree := by simp
    have bodyEq : tree.value.1 = body := by
      rw [children, parts, ← length, List.getElem?_map, List.getElem?_map, here] at listed
      exact Option.some.inj listed
    -- What the children became stands in the place of the children.
    have trees := same.2
    rw [parts, split, List.map_append, List.map_append, List.map_cons, List.map_cons] at trees
    have aligned := List.append_inj trees (by rw [List.length_map, List.length_map, length])
    have treeEq : tree.map Prod.snd = lowerDirectly source child := (List.cons.inj aligned.2).1
    rw [← bodyEq, ← treeEq]
    rw [parts] at records fit
    exact @Store.Records.spells store ({ value := (name, label), before, after } :: context) tree
      records fit

end Concrete

namespace Script

open Lowering

theorem kind_syntaxTree (script : Script) : script.syntaxTree.kind = .program := by
  rw [syntaxTree, wrapProgram]
  split
  · assumption
  · rfl

/-- The functions of the syntax tree are what functions of the script become. -/
theorem exists_function {script : Script} (distinct : script.root.Distinct)
    {context : Context Label} {tree : Tree} (place : fill context tree = script.syntaxTree)
    (isFunction : tree.kind = .function) :
    ∃ function ∈ script.root.visible.preorder,
      functionTypes.contains function.value.type = true ∧
      tree = lowerDirectly script.source function := by
  rw [syntaxTree, lower?_eq script.source distinct, Option.getD_some, wrapProgram] at place
  split at place
  · exact Concrete.exists_function place isFunction
  · rcases eq_or_exists_mem_of_fill place with root | ⟨inner, listed⟩
    · rw [root] at isFunction
      cases isFunction
    · exact Concrete.exists_function (List.mem_singleton.mp listed) isFunction

/-- The linked nodes of a script spell its syntax tree. -/
theorem assembled_spells (script : Script) :
    script.assembled.1.Spells script.assembled.2 script.syntaxTree := by
  rcases script.exists_shape with ⟨shape, records, rootEq, treeEq⟩
  have fit : Tree.IsFit (shape.map Prod.snd) := treeEq ▸ script.isFit_syntaxTree
  rw [← rootEq, ← treeEq]
  exact @Store.Records.spells _ [] shape records fit

/-- The linked nodes of a script are a well-formed syntax tree.  With different
identities, its functions are those of the script, each with the body that the script
gives it. -/
theorem assembled_wellFormed (script : Script) :
    script.assembled.1.WellFormed script.assembled.2 ∧
      script.assembled.1.Spells script.assembled.2 script.syntaxTree ∧
      (script.root.Distinct → ∀ name,
        script.assembled.1.Below script.assembled.2 name →
        script.assembled.1.kind? name = some .function →
        (∃ function ∈ script.root.visible.preorder,
          functionTypes.contains function.value.type = true ∧
          script.assembled.1.Spells name (lowerDirectly script.source function)) ∧
        ∀ function ∈ script.root.visible.preorder,
          functionTypes.contains function.value.type = true →
          script.assembled.1.Spells name (lowerDirectly script.source function) →
          Concrete.HasBody script.assembled.1 script.source name function) := by
  rcases script.exists_shape with ⟨shape, records, rootEq, treeEq⟩
  have fit : Tree.IsFit (shape.map Prod.snd) := treeEq ▸ script.isFit_syntaxTree
  rw [← rootEq, ← treeEq]
  refine ⟨?_, ?_, ?_⟩
  · apply records.wellFormed fit
    have program := script.kind_syntaxTree
    rw [← treeEq, Tree.kind, value_map] at program
    exact program
  · exact @Store.Records.spells _ [] shape records fit
  · intro distinct name reached isFunction
    rcases records.exists_place reached with ⟨context, label, below, place⟩
    rw [place] at records fit treeEq
    rw [records.kind?_place, Option.some.injEq] at isFunction
    have spelled := records.spells fit
    constructor
    · rw [map_fill] at treeEq
      rcases exists_function distinct treeEq isFunction with ⟨function, visited, isType, same⟩
      exact ⟨function, visited, isType, same ▸ spelled⟩
    · intro function visited isType alike
      exact Concrete.hasBody records fit (distinct.visit visited) isType (spelled.unique alike)

def arrowBody : Script where
  source := "x=>y".toUTF8.toList
  root :=
    .node { type := "program", identity := 1, stop := 4 } [
      .node { type := "expression_statement", identity := 2, stop := 4 } [
        .node { type := "arrow_function", identity := 3, stop := 4 } [
          .node { type := "identifier", field := some "parameter", identity := 4, stop := 1 } [],
          .node { type := "=>", named := false, identity := 5,
                  column := 1, start := 1, stop := 3 } [],
          .node { type := "identifier", field := some "body", identity := 6,
                  column := 3, start := 3, stop := 4 } []]]]

theorem assembled_arrowBody :
    arrowBody.root.Distinct ∧ arrowBody.assembled.1.kind? 2 = some .function ∧
      ∀ name, arrowBody.assembled.1.Below arrowBody.assembled.2 name →
        arrowBody.assembled.1.kind? name = some .function →
        (∃ function ∈ arrowBody.root.visible.preorder,
          functionTypes.contains function.value.type = true ∧
          arrowBody.assembled.1.Spells name (lowerDirectly arrowBody.source function)) ∧
        ∀ function ∈ arrowBody.root.visible.preorder,
          functionTypes.contains function.value.type = true →
          arrowBody.assembled.1.Spells name (lowerDirectly arrowBody.source function) →
          Concrete.HasBody arrowBody.assembled.1 arrowBody.source name function :=
  ⟨by decide, by rw [assembled, Assembly.ofRoot, guide_eq_foldl]; decide +kernel,
    (assembled_wellFormed arrowBody).2.2 (by decide)⟩

end Script

end CallbackLint
