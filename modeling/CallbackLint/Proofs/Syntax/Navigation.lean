import CallbackLint.Proofs.Rose.Moments
import CallbackLint.Proofs.Syntax.Construction

namespace CallbackLint

open Rose

/-!
# Looking around during a traversal

A traversal goes down the lists of children, and a node that looks around follows links to
parents.  In a store that was built bottom-up both describe one tree, so that what a node
finds around it is where the traversal is: the nodes above it are those that are underway,
its index counts the siblings that have been left, and its next sibling, or else its parent,
is what the traversal turns to when it has left the node.
-/

namespace Store

/-- What a node below a root finds around it, in terms of the traversal from that root.  The links
are followed from the node, and the traversal comes from above; neither knows of the other. -/
structure Navigates (store : Store) (root name : Nat) : Prop where
  /-- The traversal comes to the node, and leaves it. -/
  met : .enter name ∈ (store.outline root).walk ∧ .leave name ∈ (store.outline root).walk
  /-- The nodes above it are those that are entered and not yet left, nearest first. -/
  ancestors : ∀ before after, (store.outline root).walk = before ++ .enter name :: after →
    store.ancestors name = underway before
  /-- Climbing comes to an end behind them, however far it may go. -/
  climbs : ∀ before after, (store.outline root).walk = before ++ .enter name :: after →
    ∀ limit, (underway before).length ≤ limit → store.climb limit name = underway before
  /-- Unless it is the root, its index is the number of its siblings that have been left. -/
  index : ∀ before after, (store.outline root).walk = before ++ .enter name :: after →
    store.indexInParent? name = (store.parentOf? name).map fun parent =>
      (store.childrenOf parent).countP fun sibling => decide (.leave sibling ∈ before)
  /-- When it has been left, its next sibling is entered, or else its parent is left. -/
  next : ∀ before after, (store.outline root).walk = before ++ .leave name :: after →
    after.head? = match store.nextSibling? name with
      | some next => some (.enter next)
      | none => (store.parentOf? name).map .leave
  /-- Only the root is left with nothing to follow. -/
  top : store.parentOf? name = none ↔ name = root

namespace Holds

variable {store : Store} {context : Context Nat} {crumb : Crumb Nat} {tree : Rose Nat}

theorem nodup_preorderBefore (holds : store.Holds (fill context tree)) :
    (preorderBefore context).Nodup := by
  have distinct := holds.distinct
  rw [preorder_fill, List.append_assoc] at distinct
  exact (List.nodup_append.mp distinct).1

/-- What is in a subtree, or after it, has not been left before the traversal comes to the
subtree. -/
theorem leave_notMem_visitsBefore (holds : store.Holds (fill context tree)) {name : Nat}
    (later : name ∈ tree.preorder ++ preorderAfter context) :
    .leave name ∉ visitsBefore context := by
  intro left
  have distinct := holds.distinct
  rw [preorder_fill, List.append_assoc] at distinct
  exact (List.nodup_append.mp distinct).2.2 name (mem_preorderBefore_of_leave_mem left) name
    later rfl

/-- The siblings that have been left before a place are those on the left of it. -/
theorem countP_left_eq (holds : store.Holds (fill (crumb :: context) tree)) :
    (store.childrenOf crumb.value).countP
        (fun sibling => decide (.leave sibling ∈ visitsBefore (crumb :: context))) =
      crumb.before.length := by
  have left : ∀ sibling ∈ crumb.before.map Rose.value,
      decide (.leave sibling ∈ visitsBefore (crumb :: context)) = true := by
    intro sibling listed
    apply decide_eq_true
    exact leave_mem_visitsBefore_cons.mpr
      (Or.inr ((map_value_sublist_preorderAll crumb.before).subset listed))
  have notLeft : ∀ sibling ∈ tree.value :: crumb.after.map Rose.value,
      ¬ decide (.leave sibling ∈ visitsBefore (crumb :: context)) = true := by
    intro sibling listed
    rw [decide_eq_true_eq]
    apply holds.leave_notMem_visitsBefore
    rcases List.mem_cons.mp listed with same | later
    · exact List.mem_append_left _ (same ▸ value_mem_preorder tree)
    · have after := (map_value_sublist_preorderAll crumb.after).subset later
      exact List.mem_append_right _ (List.mem_append_left _ after)
  rw [holds.childrenOf_crumb, List.countP_append, List.countP_eq_length.mpr left,
    List.countP_eq_zero.mpr notLeft, List.length_map, Nat.add_zero]

theorem indexInParent?_eq (holds : store.Holds (fill context tree)) :
    store.indexInParent? tree.value = (store.parentOf? tree.value).map fun parent =>
      (store.childrenOf parent).countP
        fun sibling => decide (.leave sibling ∈ visitsBefore context) := by
  rw [indexInParent?, holds.parentOf?_value]
  cases context with
  | nil => rfl
  | cons crumb context =>
      rw [List.head?_cons, Option.map_some, Option.bind_some, Option.map_some,
        holds.countP_left_eq, holds.childrenOf_crumb, idxOf?_append_cons holds.not_mem_before,
        List.length_map]

/-- What a traversal does after it has left a place. -/
theorem head?_visitsAfter_eq (holds : store.Holds (fill context tree)) :
    (visitsAfter context).head? = match store.nextSibling? tree.value with
      | some next => some (.enter next)
      | none => (store.parentOf? tree.value).map .leave := by
  rw [holds.parentOf?_value]
  cases context with
  | nil =>
      have top : store.nextSibling? tree.value = none := by
        rw [nextSibling?, holds.parentOf?_value]
        rfl
      rw [top]
      rfl
  | cons crumb context =>
      rw [head?_visitsAfter, holds.nextSibling?_eq]
      cases crumb.after.head? <;> rfl

/-- A store that holds a tree lets every node of it navigate. -/
theorem navigates {shape : Rose Nat} (holds : store.Holds shape) {name : Nat}
    (member : name ∈ shape.preorder) : store.Navigates shape.value name := by
  have walk : (store.outline shape.value).walk = shape.visits := by
    rw [holds.outline_eq, walk_eq_visits]
  -- A step that enters the node belongs to a place, and the store holds the tree around it.
  have atPlace : ∀ before after, shape.visits = before ++ .enter name :: after →
      ∃ context below, store.Holds (fill context (.node name below)) ∧
        before = visitsBefore context := by
    intro before after moment
    rcases exists_place_of_enter moment with ⟨context, below, place, beforeEq, _⟩
    exact ⟨context, below, place ▸ holds, beforeEq⟩
  constructor
  · rw [walk]
    refine ⟨enter_mem_visits member, (visits_perm shape).mem_iff.mpr ?_⟩
    exact List.mem_append_right _ (List.mem_map_of_mem member)
  · intro before after moment
    rcases atPlace before after (walk ▸ moment) with ⟨context, below, here, rfl⟩
    rw [underway_visitsBefore here.nodup_preorderBefore]
    exact here.ancestors_eq
  · intro before after moment limit room
    rcases atPlace before after (walk ▸ moment) with ⟨context, below, here, rfl⟩
    rw [underway_visitsBefore here.nodup_preorderBefore] at room ⊢
    exact here.climb_eq (by rwa [valuesAbove, List.length_map] at room)
  · intro before after moment
    rcases atPlace before after (walk ▸ moment) with ⟨context, below, here, rfl⟩
    exact here.indexInParent?_eq
  · intro before after moment
    rcases exists_place_of_leave holds.distinct (walk ▸ moment) with
      ⟨context, below, place, _, rfl⟩
    rw [place] at holds
    exact holds.head?_visitsAfter_eq
  · rcases exists_place_of_mem member with ⟨context, below, place⟩
    rw [place] at holds ⊢
    rw [holds.parentOf?_eq]
    cases context with
    | nil => exact ⟨fun _ => rfl, fun _ => rfl⟩
    | cons crumb context =>
        constructor
        · intro noParent
          cases noParent
        · intro root
          -- The root is above the place, and no node is above itself.
          have above : name ∈ valuesAbove (crumb :: context) :=
            root ▸ value_fill_mem context (crumb.fill (.node name below))
          exact absurd above (holds.not_mem_valuesAbove (value_mem_preorder _))

end Holds

/-- In a store that is built bottom-up, with no node used as a child twice, every node below
one without a parent finds around it what the traversal from there meets around it. -/
theorem build_navigates (nodes : List Node) (bottomUp : IsBottomUp nodes) (root : Nat)
    (there : root < nodes.length) (top : (build nodes).parentOf? root = none) (name : Nat)
    (below : (build nodes).Below root name) : (build nodes).Navigates root name := by
  rw [← size_build] at there
  have holds := (isForest_build bottomUp).holds_outline there top
  have value : ((build nodes).outline root).value = root := value_unfold _ _ _
  have member : name ∈ ((build nodes).outline root).preorder := by
    rw [← holds.below_iff, value]
    exact below
  have navigates := holds.navigates member
  rwa [value] at navigates

/-- Two calls in a block, and a loop after the block that was given another parent first. -/
def growingNodes : List Node :=
  [{ kind := .call, position := ⟨1, 1⟩ }, { kind := .call, position := ⟨2, 1⟩ },
    { kind := .block, position := ⟨1, 1⟩, children := [0, 1] },
    { kind := .loop, position := ⟨3, 1⟩, parent := some 0 },
    { kind := .program, position := ⟨1, 1⟩, children := [2, 3] }]

/-- The second call of the block. -/
theorem build_navigates_lastCall :
    IsBottomUp growingNodes ∧ 4 < growingNodes.length ∧
      (build growingNodes).parentOf? 4 = none ∧ (build growingNodes).Below 4 1 ∧
      (build growingNodes).ancestors 1 = [2, 4] ∧ (build growingNodes).nextSibling? 2 = some 3 ∧
      (build growingNodes).Navigates 4 1 := by
  have bottomUp : IsBottomUp growingNodes := by decide
  have top : (build growingNodes).parentOf? 4 = none := by decide
  have below : (build growingNodes).Below 4 1 :=
    (Relation.ReflTransGen.single (by decide : 2 ∈ (build growingNodes).childrenOf 4)).tail
      (by decide)
  exact ⟨bottomUp, by decide, top, below, by decide, by decide,
    build_navigates growingNodes bottomUp 4 (by decide) top 1 below⟩

/-- The children of the parent of a node, the node among them. -/
def siblingsOf (store : Store) (name : Nat) : List Nat :=
  match store.parentOf? name with
  | some parent => store.childrenOf parent
  | none => []

/-- The root has no siblings, and so none that have been left when it is entered, but its
index is not zero: it has no index. -/
theorem not_index_countsSiblings :
    ¬ ∀ (nodes : List Node) (root name : Nat) (before after : List (Visit Nat)),
      IsBottomUp nodes → root < nodes.length → (build nodes).parentOf? root = none →
      (build nodes).Below root name →
      ((build nodes).outline root).walk = before ++ .enter name :: after →
      (build nodes).indexInParent? name = some (((build nodes).siblingsOf name).countP
        fun sibling => decide (.leave sibling ∈ before)) := by
  intro always
  have top : (build growingNodes).parentOf? 4 = none := by decide
  have entered : ((build growingNodes).outline 4).walk =
      [] ++ .enter 4 :: ((build growingNodes).outline 4).walk.tail := by
    rw [walk_eq_visits]
    rfl
  have counted := always growingNodes 4 4 [] _ (by decide) (by decide) top
    Relation.ReflTransGen.refl entered
  rw [indexInParent?, top] at counted
  cases counted

end Store

end CallbackLint
