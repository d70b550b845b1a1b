import CallbackLint.Proofs.Concrete.Account

namespace CallbackLint

open Rose

/-!
# Nothing is lost and nothing is made up

The linked nodes of a script and its concrete nodes correspond to each other.  Left over
are the collapsed nodes on one side, and on the other side the block of each `case` and a
program that is put on top.

The correspondence keeps positions, kinds and ancestors.  It keeps the order too, where the
value of a `case` is read before what stands beside it.
-/

namespace Concrete

open Lowering

/-- The kind of the syntax node that comes from a node, construct by construct. -/
structure Becomes (node : Concrete) (kind : Kind) : Prop where
  call : kind = .call ↔ node.value.type = "call_expression" ∧
    node.typeInRole? "arguments" ≠ some "template_string"
  function : kind = .function ↔ node.value.type ∈ functionTypes
  logicalAnd : kind = .logicalAnd ↔ node.value.type = "binary_expression" ∧
    node.typeInRole? "operator" = some "&&"
  switchCase : kind = .switchCase ↔ node.value.type ∈ caseTypes
  loop : kind = .loop ↔ node.value.type ∈ loopTypes
  program : kind = .program ↔ node.value.type = "program"
  block : kind = .block ↔ node.value.type = "statement_block"
  expressionStatement : kind = .expressionStatement ↔ node.value.type = "expression_statement"
  returnStatement : kind = .returnStatement ↔ node.value.type = "return_statement"
  ifStatement : kind = .ifStatement ↔ node.value.type = "if_statement"
  switchStatement : kind = .switchStatement ↔ node.value.type = "switch_statement"

theorem becomes_kind (node : Concrete) : node.Becomes node.kind where
  call := by rw [kind_eq_call_iff, isCall, Bool.and_eq_true, beq_iff_eq, bne_iff_ne]
  function := by rw [kind_eq_function_iff, List.contains_iff_mem]
  logicalAnd := kind_eq_logicalAnd_iff
  switchCase := by rw [kind_eq_switchCase_iff, isCase, List.contains_iff_mem]
  loop := by rw [kind_eq_loop_iff, List.contains_iff_mem]
  program := kind_eq_program_iff
  block := kind_eq_block_iff
  expressionStatement := kind_eq_expressionStatement_iff
  returnStatement := kind_eq_returnStatement_iff
  ifStatement := kind_eq_ifStatement_iff
  switchStatement := kind_eq_switchStatement_iff

end Concrete

open Concrete

namespace Script

/-- What an entry says about a linked node. -/
theorem IsAccount.exists_node {script : Script} {store : Store}
    {account : Rose (Nat × Traced)} (isAccount : script.IsAccount store account)
    {entry : Nat × Traced} (member : entry ∈ account.preorder) {node : Concrete}
    (origin : originOf entry = some node) :
    ∃ linked, store.node? entry.1 = some linked ∧
      linked.position = node.value.position script.source ∧ node.Becomes linked.kind := by
  rcases exists_place_of_mem member with ⟨context, below, place⟩
  rw [place] at isAccount
  rcases isAccount.faithful_place.label node origin with ⟨kindEq, positionEq⟩
  refine ⟨_, isAccount.records_place.node?_eq, positionEq, ?_⟩
  rw [Store.entry, kindEq]
  exact node.becomes_kind

/-! ## The correspondence -/

/-- The linked nodes below a name come from the nodes of a script, and nothing is lost or
made up on the way. -/
structure HasOrigins (script : Script) (store : Store) (top : Nat)
    (origin : Nat → Option Concrete) : Prop where
  /-- From each visited node that is not collapsed comes one linked node. -/
  complete : ∀ node ∈ script.root.visible.preorder, node.isCollapsed = false →
    ∃! name, store.Below top name ∧ origin name = some node
  /-- No linked node comes from any other node. -/
  sound : ∀ name node, store.Below top name → origin name = some node →
    node ∈ script.root.visible.preorder ∧ node.isCollapsed = false
  /-- No node is made up but the last one below a branch of a `switch`, and a program on top
  if there is no other. -/
  madeUp : ∀ name, store.Below top name → (origin name = none ↔
    (∃ branch, store.Below top branch ∧ store.kind? branch = some .switchCase ∧
      (store.childrenOf branch).getLast? = some name) ∨
    name = top ∧ script.root.strip.value.type ≠ "program")
  /-- Below each branch of a `switch` there is one such node, and it is a block. -/
  block : ∀ branch, store.Below top branch → store.kind? branch = some .switchCase →
    ∃ earlier block, store.childrenOf branch = earlier ++ [block] ∧
      store.kind? block = some .block ∧ origin block = none ∧
      ∀ child ∈ earlier, origin child ≠ none
  program : store.kind? top = some .program
  /-- Position and kind are those of the origin. -/
  linked : ∀ name node, store.Below top name → origin name = some node →
    ∃ linked, store.node? name = some linked ∧
      linked.position = node.value.position script.source ∧ node.Becomes linked.kind
  /-- Linked nodes stand above each other where their origins do. -/
  ancestors : ∀ upper lower above below, store.Below top upper → store.Below top lower →
    origin upper = some above → origin lower = some below →
    (upper ∈ store.ancestors lower ↔ above.IsAbove below)
  /-- The order is that of the origins, where the value of a `case` comes first. -/
  order : (store.outline top).preorder.filterMap origin =
    script.root.reading.preorder.filter fun node => !node.isCollapsed

theorem IsAccount.hasOrigins {script : Script} {store : Store} {account : Rose (Nat × Traced)}
    (isAccount : script.IsAccount store account) (distinct : script.root.Distinct)
    (program : store.kind? account.value.1 = some .program) :
    script.HasOrigins store account.value.1 (originIn account) where
  complete := by
    intro node visited survives
    rcases isAccount.mem_origins_iff.mpr ⟨visited, survives⟩ with ⟨entry, member, origin⟩
    refine ⟨entry.1, ⟨isAccount.below_of_mem member, ?_⟩, ?_⟩
    · rw [isAccount.originIn_eq member, origin]
    · rintro name ⟨reached, sameOrigin⟩
      rcases isAccount.below_iff.mp reached with ⟨other, otherMember, rfl⟩
      rw [isAccount.originIn_eq otherMember] at sameOrigin
      rw [isAccount.eq_of_origin_eq distinct otherMember member sameOrigin origin]
  sound := by
    intro name node reached origin
    rcases isAccount.below_iff.mp reached with ⟨entry, member, rfl⟩
    rw [isAccount.originIn_eq member] at origin
    exact isAccount.mem_origins_iff.mp ⟨entry, member, origin⟩
  madeUp := by
    intro name reached
    rcases isAccount.below_iff.mp reached with ⟨entry, member, rfl⟩
    rw [isAccount.originIn_eq member]
    exact isAccount.originOf_eq_none_iff member
  block := fun _ => isAccount.exists_block
  program := program
  linked := by
    intro name node reached origin
    rcases isAccount.below_iff.mp reached with ⟨entry, member, rfl⟩
    rw [isAccount.originIn_eq member] at origin
    exact isAccount.exists_node member origin
  ancestors := by
    intro upper lower above below upperReached lowerReached upperOrigin lowerOrigin
    rcases isAccount.below_iff.mp upperReached with ⟨upperEntry, upperMember, rfl⟩
    rcases isAccount.below_iff.mp lowerReached with ⟨lowerEntry, lowerMember, rfl⟩
    rw [isAccount.originIn_eq upperMember] at upperOrigin
    rw [isAccount.originIn_eq lowerMember] at lowerOrigin
    exact isAccount.mem_ancestors_iff distinct upperMember lowerMember upperOrigin lowerOrigin
  order := by
    have outline := isAccount.holds.outline_eq
    rw [value_map] at outline
    rw [outline, preorder_map, List.filterMap_map, ← isAccount.filterMap_origin]
    apply List.filterMap_congr
    intro entry member
    exact isAccount.originIn_eq member

theorem kind?_assembled (script : Script) :
    script.assembled.1.kind? script.assembled.2 = some .program := by
  rcases script.exists_shape with ⟨shape, records, rootEq, treeEq⟩
  have program := script.kind_syntaxTree
  rw [← treeEq, Tree.kind, value_map] at program
  rcases shape with ⟨node, children⟩
  have top := @Store.Records.kind?_place script.assembled.1 [] node children records
  rw [← rootEq, ← program]
  exact top

/-- With different identities, lowering loses no node of a script and makes none up, but for
the blocks of the branches and a program on top. -/
theorem assembled_hasOrigins (script : Script) (distinct : script.root.Distinct) :
    ∃ origin, script.HasOrigins script.assembled.1 script.assembled.2 origin := by
  rcases script.exists_account distinct with ⟨account, isAccount, top⟩
  have program := script.kind?_assembled
  rw [← top] at program ⊢
  exact ⟨originIn account, isAccount.hasOrigins distinct program⟩

/-- A `case` whose value stands behind a statement and in parentheses, read without a
program around it. -/
def looseBranch : Script where
  source := "case f():/**/(a)".toUTF8.toList
  root :=
    .node { type := "switch_case", identity := 1, stop := 16 } [
      .node { type := "call_expression", identity := 2, column := 5, start := 5, stop := 8 } [
        .node { type := "identifier", field := some "function", identity := 3,
                column := 5, start := 5, stop := 6 } []],
      .node { type := "comment", identity := 4, column := 9, start := 9, stop := 13 } [],
      .node { type := "parenthesized_expression", field := some "value", identity := 5,
              column := 13, start := 13, stop := 16 } [
        .node { type := "identifier", identity := 6, column := 14, start := 14, stop := 15 } []]]

theorem assembled_hasOrigins_looseBranch :
    looseBranch.root.Distinct ∧
      ∃ origin, looseBranch.HasOrigins looseBranch.assembled.1 looseBranch.assembled.2 origin :=
  ⟨by decide, assembled_hasOrigins looseBranch (by decide)⟩

end Script

end CallbackLint
