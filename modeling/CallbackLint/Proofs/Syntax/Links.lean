import CallbackLint.Syntax.Store
import CallbackLint.Proofs.Rose.Context
import Mathlib.Logic.Relation
import Mathlib.Data.List.Basic
import Mathlib.Data.List.Nodup
import Mathlib.Data.List.Perm.Subperm

namespace CallbackLint

/-!
# Stores that hold a tree

The links of a store are plain data.  `Store.Holds` says that they agree with a
tree of names: every node of the tree is in the store, names its parent and its
children as the tree has them, and occurs once.  What the body of a function
refers to is left open, and so is the rest of the store.

Under this agreement, looking around from a node reads its context.  The outline
of the store is the tree again, since a branch of a tree without repetition is
no longer than the store.
-/

namespace Store

open Rose

def linksOf? (store : Store) (name : Nat) : Option (Option Nat × List Nat) :=
  (store.node? name).map fun node => (node.parent, node.children)

/-- A store holds a tree of names.  This is about links alone, so it remains when kinds, positions
or bodies change. -/
structure Holds (store : Store) (shape : Rose Nat) : Prop where
  /-- No node is below two nodes, or twice below one. -/
  distinct : shape.preorder.Nodup
  /-- Every node names the parent and the children that it has in the tree; the
  root names no parent. -/
  linked : shape.Everywhere (fun parent name children =>
    store.linksOf? name = some (parent, children)) none

instance (store : Store) (shape : Rose Nat) : Decidable (store.Holds shape) :=
  decidable_of_iff (shape.preorder.Nodup ∧ shape.Everywhere (fun parent name children =>
      store.linksOf? name = some (parent, children)) none)
    ⟨fun both => ⟨both.1, both.2⟩, fun holds => ⟨holds.distinct, holds.linked⟩⟩

/-- A chain of parent links leads from `lower` up to `upper`. -/
def Above (store : Store) (upper lower : Nat) : Prop :=
  Relation.TransGen (fun upper lower => store.parentOf? lower = some upper) upper lower

/-- A value that does not come earlier is found where the list is split at it. -/
theorem idxOf?_append_cons {before after : List Nat} {name : Nat} (absent : name ∉ before) :
    (before ++ name :: after).idxOf? name = some before.length := by
  induction before with
  | nil => rw [List.nil_append, List.idxOf?_cons, beq_self_eq_true, if_pos rfl]; rfl
  | cons first before inductionHypothesis =>
      have different : (first == name) = false := beq_eq_false_iff_ne.mpr fun same =>
        absent (same ▸ List.mem_cons_self)
      rw [List.cons_append, List.idxOf?_cons, different,
        inductionHypothesis fun member => absent (List.mem_cons_of_mem _ member)]
      rfl

/-- The next sibling of a node that its parent lists once. -/
theorem nextSibling?_of_split {store : Store} {name parent : Nat} {before after : List Nat}
    (link : store.parentOf? name = some parent)
    (split : store.childrenOf parent = before ++ name :: after) (absent : name ∉ before) :
    store.nextSibling? name = after.head? := by
  rw [nextSibling?, indexInParent?, link, Option.bind_some, Option.bind_some, split,
    idxOf?_append_cons absent, Option.bind_some,
    List.getElem?_append_right (Nat.le_add_right _ 1), Nat.add_sub_cancel_left,
    List.getElem?_cons_succ, ← List.head?_eq_getElem?]

namespace Holds

variable {store : Store} {context : Context Nat} {crumb : Crumb Nat} {tree : Rose Nat}
  {name : Nat} {below : List (Rose Nat)}

/-! ## One node -/

theorem exists_node (holds : store.Holds (fill context (.node name below))) :
    ∃ node, store.node? name = some node ∧ node.parent = context.head?.map Crumb.value ∧
      node.children = below.map Rose.value := by
  have here := (everywhere_fill holds.linked).1
  rcases Option.map_eq_some_iff.mp here with ⟨node, found, links⟩
  rw [Prod.mk.injEq] at links
  exact ⟨node, found, links⟩

theorem parentOf?_eq (holds : store.Holds (fill context (.node name below))) :
    store.parentOf? name = context.head?.map Crumb.value := by
  rcases holds.exists_node with ⟨node, found, parentEq, _⟩
  rw [parentOf?, found, Option.bind_some, parentEq]

theorem childrenOf_eq (holds : store.Holds (fill context (.node name below))) :
    store.childrenOf name = below.map Rose.value := by
  rcases holds.exists_node with ⟨node, found, _, childrenEq⟩
  rw [childrenOf, found]
  exact childrenEq

theorem parentOf?_value (holds : store.Holds (fill context tree)) :
    store.parentOf? tree.value = context.head?.map Crumb.value := by
  cases tree with
  | node name below => exact holds.parentOf?_eq

/-- The node of the nearest crumb has the children that the crumb shows. -/
theorem childrenOf_crumb (holds : store.Holds (fill (crumb :: context) tree)) :
    store.childrenOf crumb.value =
      crumb.before.map Rose.value ++ tree.value :: crumb.after.map Rose.value := by
  have outside : store.Holds
    (fill context (.node crumb.value (crumb.before ++ tree :: crumb.after))) := holds
  rw [outside.childrenOf_eq, List.map_append, List.map_cons]

theorem distinct_focus (holds : store.Holds (fill context tree)) : tree.preorder.Nodup := by
  have distinct := holds.distinct
  rw [preorder_fill] at distinct
  exact (List.nodup_append.mp (List.nodup_append.mp distinct).1).2.1

/-- No node is above itself. -/
theorem not_mem_valuesAbove (holds : store.Holds (fill context tree)) {value : Nat}
    (member : value ∈ tree.preorder) : value ∉ valuesAbove context := by
  intro above
  have distinct := holds.distinct
  rw [preorder_fill] at distinct
  exact (List.nodup_append.mp (List.nodup_append.mp distinct).1).2.2 value
    (valuesAbove_subset_preorderBefore context above) value member rfl

theorem distinct_above (holds : store.Holds (fill context tree)) :
    (valuesAbove context).Nodup := by
  have distinct := holds.distinct
  rw [preorder_fill] at distinct
  exact List.nodup_reverse.mp ((List.nodup_append.mp (List.nodup_append.mp distinct).1).1.sublist
    (valuesAbove_sublist context))

/-! ## Siblings -/

theorem distinct_children (holds : store.Holds (fill context (.node name below))) :
    (below.map Rose.value).Nodup := by
  have distinct := holds.distinct_focus
  rw [preorder] at distinct
  exact (List.nodup_cons.mp distinct).2.sublist (map_value_sublist_preorderAll below)

/-- The siblings that come before a place do not include its node. -/
theorem not_mem_before (holds : store.Holds (fill (crumb :: context) tree)) :
    tree.value ∉ crumb.before.map Rose.value := by
  have outside : store.Holds
    (fill context (.node crumb.value (crumb.before ++ tree :: crumb.after))) := holds
  have distinct := outside.distinct_children
  rw [List.map_append, List.map_cons] at distinct
  exact fun member => (List.nodup_append.mp distinct).2.2 _ member _ List.mem_cons_self rfl

theorem not_mem_after (holds : store.Holds (fill (crumb :: context) tree)) :
    tree.value ∉ crumb.after.map Rose.value := by
  have outside : store.Holds
    (fill context (.node crumb.value (crumb.before ++ tree :: crumb.after))) := holds
  have distinct := outside.distinct_children
  rw [List.map_append, List.map_cons] at distinct
  exact (List.nodup_cons.mp (List.nodup_append.mp distinct).2.1).1

/-- Of all nodes below a place only the first is a child of the node above. -/
theorem eq_value_of_mem_childrenOf (holds : store.Holds (fill (crumb :: context) tree))
    (below : name ∈ tree.preorder) (child : name ∈ store.childrenOf crumb.value) :
    name = tree.value := by
  have distinct : (preorderAll (crumb.before ++ tree :: crumb.after)).Nodup := by
    have outside : store.Holds
      (fill context (.node crumb.value (crumb.before ++ tree :: crumb.after))) := holds
    have focus := outside.distinct_focus
    rw [preorder] at focus
    exact (List.nodup_cons.mp focus).2
  rw [preorderAll_append, preorderAll] at distinct
  have sides := List.nodup_append.mp distinct
  rw [holds.childrenOf_crumb] at child
  rcases List.mem_append.mp child with before | later
  · have inBefore := (map_value_sublist_preorderAll crumb.before).subset before
    exact False.elim (sides.2.2 name inBefore name (List.mem_append_left _ below) rfl)
  · rcases List.mem_cons.mp later with same | after
    · exact same
    · have inAfter := (map_value_sublist_preorderAll crumb.after).subset after
      exact False.elim ((List.nodup_append.mp sides.2.1).2.2 name below name inAfter rfl)

theorem parentOf?_of_mem_childrenOf (holds : store.Holds (fill context (.node name below)))
    {child : Nat} (member : child ∈ store.childrenOf name) :
    store.parentOf? child = some name := by
  rw [holds.childrenOf_eq, List.mem_map] at member
  rcases member with ⟨tree, listed, childEq⟩
  rcases List.append_of_mem listed with ⟨before, after, split⟩
  rw [split] at holds
  have lower : store.Holds (fill ({ value := name, before, after } :: context) tree) := holds
  rw [← childEq, lower.parentOf?_value]
  rfl

/-- The next sibling is the first node on the far side of the way up. -/
theorem nextSibling?_eq (holds : store.Holds (fill (crumb :: context) tree)) :
    store.nextSibling? tree.value = crumb.after.head?.map Rose.value := by
  rw [nextSibling?_of_split holds.parentOf?_value holds.childrenOf_crumb holds.not_mem_before,
    List.head?_map]

/-! ## Ancestors -/

theorem climb_eq (holds : store.Holds (fill context tree)) {limit : Nat}
    (room : context.length ≤ limit) : store.climb limit tree.value = valuesAbove context := by
  induction context generalizing tree limit with
  | nil =>
      cases limit with
      | zero => rfl
      | succ limit => rw [climb, holds.parentOf?_value]; rfl
  | cons crumb context inductionHypothesis =>
      cases limit with
      | zero => cases room
      | succ limit =>
          have outside : store.Holds (fill context (crumb.fill tree)) := holds
          have higher := inductionHypothesis outside (Nat.le_of_succ_le_succ room)
          rw [climb, holds.parentOf?_value]
          exact congrArg (List.cons crumb.value) higher

theorem lt_size_of_mem (holds : store.Holds tree) (member : name ∈ tree.preorder) :
    name < store.nodes.size := by
  rcases exists_place_of_mem member with ⟨context, below, place⟩
  rw [place] at holds
  rcases holds.exists_node with ⟨node, found, _⟩
  exact (Array.getElem?_eq_some_iff.mp found).1

/-- A store has at least as many nodes as the tree that it holds. -/
theorem size_le (holds : store.Holds tree) : tree.size ≤ store.nodes.size := by
  have within : tree.preorder ⊆ List.range store.nodes.size := fun value member =>
    List.mem_range.mpr (holds.lt_size_of_mem member)
  have bound := (List.subperm_of_subset holds.distinct within).length_le
  rwa [length_preorder, List.length_range] at bound

theorem ancestors_eq (holds : store.Holds (fill context tree)) :
    store.ancestors tree.value = valuesAbove context :=
  holds.climb_eq
    (Nat.le_of_lt (Nat.lt_of_lt_of_le (length_lt_size_fill context tree) holds.size_le))

theorem above_iff (holds : store.Holds (fill context tree)) {upper : Nat} :
    store.Above upper tree.value ↔ upper ∈ valuesAbove context := by
  induction context generalizing tree with
  | nil =>
      have root := holds.parentOf?_value
      constructor
      · intro above
        rcases Relation.TransGen.tail'_iff.mp above with ⟨parent, _, link⟩
        rw [root] at link
        cases link
      · intro member
        cases member
  | cons crumb context inductionHypothesis =>
      have link := holds.parentOf?_value
      rw [List.head?_cons, Option.map_some] at link
      have outside : store.Holds (fill context (crumb.fill tree)) := holds
      have higher := inductionHypothesis outside
      rw [valuesAbove_cons, List.mem_cons]
      constructor
      · intro above
        rcases Relation.TransGen.tail'_iff.mp above with ⟨parent, chain, last⟩
        rw [link, Option.some.injEq] at last
        rcases Relation.reflTransGen_iff_eq_or_transGen.mp chain with same | further
        · exact Or.inl (last.trans same).symm
        · rw [← last] at further
          exact Or.inr (higher.mp further)
      · intro member
        rcases member with same | later
        · exact Relation.TransGen.single (same ▸ link)
        · exact Relation.TransGen.tail (higher.mpr later) link

/-- Of the nodes on the way up to a node, just the last one is its child. -/
theorem child_on_way_iff {inner outer : Context Nat}
    (holds : store.Holds (fill (inner ++ crumb :: outer) tree))
    (child : name ∈ store.childrenOf crumb.value) :
    name = tree.value ∨ name ∈ valuesAbove inner ∨ name = crumb.value ↔
      name = (fill inner tree).value := by
  rw [fill_append] at holds
  constructor
  · intro onWay
    have within : name ∈ tree.value :: valuesAbove inner → name = (fill inner tree).value :=
      fun member => holds.eq_value_of_mem_childrenOf (way_subset_preorder inner tree member) child
    rcases onWay with same | above | same
    · exact within (List.mem_cons.mpr (Or.inl same))
    · exact within (List.mem_cons_of_mem _ above)
    · have outside : store.Holds
        (fill outer (.node crumb.value (crumb.before ++ fill inner tree :: crumb.after))) := holds
      rw [same, outside.childrenOf_eq] at child
      have below := (map_value_sublist_preorderAll _).subset child
      have distinct := outside.distinct_focus
      rw [preorder] at distinct
      exact False.elim ((List.nodup_cons.mp distinct).1 below)
  · intro same
    rcases List.mem_cons.mp (value_fill_mem inner tree) with focus | above
    · exact Or.inl (same.trans focus)
    · exact Or.inr (Or.inl (same ▸ above))

/-- A node above a place is not on the way up to it. -/
theorem not_mem_way {inner outer : Context Nat}
    (holds : store.Holds (fill (inner ++ crumb :: outer) tree)) :
    crumb.value ∉ valuesAbove inner := by
  rw [fill_append] at holds
  intro member
  exact holds.not_mem_valuesAbove
    (way_subset_preorder inner tree (List.mem_cons_of_mem _ member)) List.mem_cons_self

/-! ## Nodes without their places -/

/-- The parent that a node of the tree names is in the tree too. -/
theorem parent_mem (holds : store.Holds tree) (member : name ∈ tree.preorder) {parent : Nat}
    (link : store.parentOf? name = some parent) : parent ∈ tree.preorder := by
  rcases exists_place_of_mem member with ⟨context, below, place⟩
  rw [place] at holds ⊢
  rw [holds.parentOf?_eq, Option.map_eq_some_iff] at link
  rcases link with ⟨crumb, first, parentEq⟩
  rw [preorder_fill, List.append_assoc]
  apply List.mem_append_left _ (valuesAbove_subset_preorderBefore context _)
  rw [← parentEq]
  exact List.mem_map_of_mem (List.mem_of_head? first)

/-- So are the children that it names. -/
theorem child_mem (holds : store.Holds tree) {owner : Nat} (member : owner ∈ tree.preorder)
    (child : name ∈ store.childrenOf owner) : name ∈ tree.preorder := by
  rcases exists_place_of_mem member with ⟨context, below, place⟩
  rw [place] at holds ⊢
  rw [holds.childrenOf_eq] at child
  rw [preorder_fill, preorder]
  apply List.mem_append_left
  apply List.mem_append_right
  exact List.mem_cons_of_mem _ ((map_value_sublist_preorderAll below).subset child)

theorem parentOf?_of_child (holds : store.Holds tree) {owner : Nat}
    (member : owner ∈ tree.preorder) (child : name ∈ store.childrenOf owner) :
    store.parentOf? name = some owner := by
  rcases exists_place_of_mem member with ⟨context, below, place⟩
  rw [place] at holds
  exact holds.parentOf?_of_mem_childrenOf child

/-- What a parent lists on both sides of a node of the tree. -/
theorem exists_siblings (holds : store.Holds tree) (member : name ∈ tree.preorder) {parent : Nat}
    (link : store.parentOf? name = some parent) :
    ∃ before after, store.childrenOf parent = before ++ name :: after ∧ name ∉ before ∧
      name ∉ after := by
  rcases exists_place_of_mem member with ⟨context, below, place⟩
  rw [place] at holds
  rw [holds.parentOf?_eq] at link
  cases context with
  | nil => cases link
  | cons crumb context =>
      rw [List.head?_cons, Option.map_some, Option.some.injEq] at link
      rw [← link]
      exact ⟨_, _, holds.childrenOf_crumb, holds.not_mem_before, holds.not_mem_after⟩

theorem mem_childrenOf (holds : store.Holds tree) (member : name ∈ tree.preorder) {parent : Nat}
    (link : store.parentOf? name = some parent) : name ∈ store.childrenOf parent := by
  rcases holds.exists_siblings member link with ⟨before, after, split, _⟩
  rw [split]
  exact List.mem_append_right _ List.mem_cons_self

theorem nextSibling?_eq_some_iff (holds : store.Holds tree) (member : name ∈ tree.preorder)
    {parent next : Nat} (link : store.parentOf? name = some parent) :
    store.nextSibling? name = some next ↔
      ∃ before after, store.childrenOf parent = before ++ name :: next :: after := by
  rcases holds.exists_siblings member link with ⟨left, right, split, notLeft, notRight⟩
  rw [nextSibling?_of_split link split notLeft]
  constructor
  · intro first
    rcases List.head?_eq_some_iff.mp first with ⟨after, rightEq⟩
    exact ⟨left, after, by rw [split, rightEq]⟩
  · rintro ⟨before, after, other⟩
    have halves := (List.append_cons_inj_of_notMem notLeft notRight).mp (split.symm.trans other)
    rw [halves.2.2, List.head?_cons]

theorem nextSibling?_eq_none_iff (holds : store.Holds tree) (member : name ∈ tree.preorder)
    {parent : Nat} (link : store.parentOf? name = some parent) :
    store.nextSibling? name = none ↔ (store.childrenOf parent).getLast? = some name := by
  rcases holds.exists_siblings member link with ⟨left, right, split, notLeft, notRight⟩
  rw [nextSibling?_of_split link split notLeft, split, List.head?_eq_none_iff,
    List.getLast?_append_cons]
  constructor
  · intro none
    rw [none]
    rfl
  · intro last
    cases right with
    | nil => rfl
    | cons first rest =>
        rw [List.getLast?_cons_cons] at last
        exact False.elim (notRight (List.mem_of_getLast? last))

/-! ## The outline -/

theorem unfold_eq (holds : store.Holds (fill context tree)) {depth : Nat}
    (room : tree.size ≤ depth + 1) : store.unfold depth tree.value = tree := by
  induction depth generalizing context tree with
  | zero =>
      cases tree with
      | node name below =>
          cases below with
          | nil => rfl
          | cons first rest =>
              have inside := size_pos first
              rw [size, sizeAll] at room
              omega
  | succ depth inductionHypothesis =>
      cases tree with
      | node name below =>
          have childEq : ∀ child ∈ below, store.unfold depth child.value = child := by
            intro child member
            rcases List.append_of_mem member with ⟨before, after, split⟩
            have smaller := size_le_sizeAll member
            rw [size] at room
            rw [split] at holds
            exact @inductionHypothesis ({ value := name, before, after } :: context) child holds
              (by omega)
          rw [value_node, unfold, holds.childrenOf_eq, List.map_map,
            List.map_congr_left (f := store.unfold depth ∘ Rose.value) (g := id) childEq,
            List.map_id]

/-- The outline of a store is the tree that it holds. -/
theorem outline_eq (holds : store.Holds tree) : store.outline tree.value = tree :=
  @unfold_eq store [] tree holds _ (Nat.le_succ_of_le holds.size_le)

end Holds

end Store

end CallbackLint
