import CallbackLint.Proofs.Syntax.Building
import CallbackLint.Proofs.Syntax.WellFormed
import Mathlib.Data.List.Induction

namespace CallbackLint

open Rose

/-!
# Stores that are built bottom-up

A store is built by adding nodes one after the other.  A new node becomes the parent of its
children, whatever parents they had.  If its children are there already and nothing has
listed them before, then no link that matters is overwritten: every child is older than its
parent, names it, and is listed once.  These three facts survive each addition.

They make the nodes below any one without a parent a tree, since a node that is below two
children of the same parent would have two parents somewhere.
-/

namespace Store

/-! ## Adding a node -/

theorem childrenOf_eq_nil {store : Store} {owner : Nat} (absent : store.node? owner = none) :
    store.childrenOf owner = [] := by
  rw [childrenOf, absent]

theorem size_add (store : Store) (node : Node) :
    (store.add node).nodes.size = store.nodes.size + 1 := by
  rw [add, Array.size_push, size_adopt]

/-- The lists of children stay as they are, and the new node has its own. -/
theorem childrenOf_add (store : Store) (node : Node) (owner : Nat) :
    (store.add node).childrenOf owner =
      if owner = store.nodes.size then node.children else store.childrenOf owner := by
  rcases Nat.lt_trichotomy owner store.nodes.size with old | new | beyond
  · rw [if_neg (Nat.ne_of_lt old), childrenOf, childrenOf, node?_add_of_lt node old]
    by_cases child : owner ∈ node.children
    · rw [if_pos child]
      cases store.node? owner <;> rfl
    · rw [if_neg child]
  · rw [if_pos new, new, childrenOf, node?_add_self]
  · rw [if_neg (Nat.ne_of_gt beyond), childrenOf_eq_nil, childrenOf_eq_nil]
    · exact Array.getElem?_eq_none (Nat.le_of_lt beyond)
    · rw [node?, Array.getElem?_eq_none_iff, size_add]
      exact beyond

/-- A child of the new node names it for its parent. -/
theorem parentOf?_add_of_mem {store : Store} {node : Node} {child : Nat}
    (old : child < store.nodes.size) (member : child ∈ node.children) :
    (store.add node).parentOf? child = some store.nodes.size := by
  have found : store.node? child = some store.nodes[child] := Array.getElem?_eq_getElem old
  rw [parentOf?, node?_add_of_lt node old, if_pos member, found]
  rfl

theorem parentOf?_add_of_notMem {store : Store} {node : Node} {name : Nat}
    (old : name < store.nodes.size) (apart : name ∉ node.children) :
    (store.add node).parentOf? name = store.parentOf? name := by
  rw [parentOf?, node?_add_of_lt node old, if_neg apart, parentOf?]

theorem lt_size_of_mem_childrenOf {store : Store} {owner child : Nat}
    (member : child ∈ store.childrenOf owner) : owner < store.nodes.size := by
  by_contra beyond
  rw [childrenOf_eq_nil (Array.getElem?_eq_none (Nat.le_of_not_lt beyond))] at member
  cases member

/-! ## The tree below a node -/

theorem value_unfold (store : Store) (depth name : Nat) :
    (store.unfold depth name).value = name := by
  cases depth <;> rfl

theorem below_of_mem_unfold {store : Store} {depth name inner : Nat}
    (member : inner ∈ (store.unfold depth name).preorder) : store.Below name inner := by
  induction depth generalizing name with
  | zero =>
      rw [unfold, preorder, preorderAll, List.mem_singleton] at member
      exact member ▸ Relation.ReflTransGen.refl
  | succ depth inductionHypothesis =>
      rw [unfold, preorder, List.mem_cons] at member
      rcases member with same | later
      · exact same ▸ Relation.ReflTransGen.refl
      · rcases exists_mem_of_mem_preorderAll later with ⟨tree, listed, inside⟩
        rcases List.mem_map.mp listed with ⟨child, childListed, rfl⟩
        exact Relation.ReflTransGen.head childListed (inductionHypothesis inside)

/-! ## Forests -/

/-- The links of a store are those of trees that were built bottom-up.  Children are older than what
owns them, which rules out cycles without a word about them. -/
structure IsForest (store : Store) : Prop where
  older : ∀ owner child, child ∈ store.childrenOf owner → child < owner
  linked : ∀ owner child, child ∈ store.childrenOf owner → store.parentOf? child = some owner
  distinct : ∀ owner, (store.childrenOf owner).Nodup

namespace IsForest

variable {store : Store}

theorem empty : IsForest {} := by
  have nothing (owner : Nat) : ({} : Store).childrenOf owner = [] :=
    childrenOf_eq_nil (Array.getElem?_eq_none (Nat.zero_le _))
  constructor
  · intro owner child member
    cases nothing owner ▸ member
  · intro owner child member
    cases nothing owner ▸ member
  · intro owner
    rw [nothing]
    exact List.nodup_nil

/-- A node may be added whose children are there and are nowhere listed yet. -/
theorem add (forest : store.IsForest) {node : Node}
    (there : ∀ child ∈ node.children, child < store.nodes.size)
    (free : ∀ child ∈ node.children, ∀ owner, child ∉ store.childrenOf owner)
    (distinct : node.children.Nodup) : (store.add node).IsForest := by
  constructor
  · intro owner child member
    rw [childrenOf_add] at member
    split at member
    · next new => exact new ▸ there child member
    · exact forest.older owner child member
  · intro owner child member
    rw [childrenOf_add] at member
    split at member
    · next new => rw [parentOf?_add_of_mem (there child member) member, new]
    · have apart : child ∉ node.children := fun listed => free child listed owner member
      have old := Nat.lt_trans (forest.older owner child member) (lt_size_of_mem_childrenOf member)
      rw [parentOf?_add_of_notMem old apart, forest.linked owner child member]
  · intro owner
    rw [childrenOf_add]
    split
    · exact distinct
    · exact forest.distinct owner

/-! ## The tree below a node of a forest -/

theorem le_of_below (forest : store.IsForest) {upper lower : Nat}
    (below : store.Below upper lower) : lower ≤ upper := by
  induction below with
  | refl => exact Nat.le_refl _
  | tail _ child inductionHypothesis =>
      exact Nat.le_trans (Nat.le_of_lt (forest.older _ _ child)) inductionHypothesis

/-- Nothing is below two children of one node. -/
theorem eq_of_below (forest : store.IsForest) {owner first second name : Nat}
    (listed : first ∈ store.childrenOf owner) (alsoListed : second ∈ store.childrenOf owner)
    (below : store.Below first name) (alsoBelow : store.Below second name) : first = second := by
  have oneParent : Relator.RightUnique
      (Function.swap fun upper lower => lower ∈ store.childrenOf upper) := by
    intro lower upper other child alsoChild
    exact Option.some.inj
      ((forest.linked upper lower child).symm.trans (forest.linked other lower alsoChild))
  -- A child that is properly below another one is below the node itself, which is younger.
  have notBelow : ∀ {upper lower : Nat}, upper ∈ store.childrenOf owner →
      lower ∈ store.childrenOf owner → store.Below upper lower → upper = lower := by
    intro upper lower upperListed lowerListed chain
    rcases Relation.ReflTransGen.cases_tail chain with same | ⟨parent, higher, child⟩
    · exact same.symm
    · rw [oneParent child lowerListed] at higher
      exact absurd (forest.le_of_below higher) (Nat.not_le_of_lt (forest.older _ _ upperListed))
  have upward := Relation.reflTransGen_swap.mpr below
  have alsoUpward := Relation.reflTransGen_swap.mpr alsoBelow
  rcases Relation.ReflTransGen.total_of_right_unique oneParent upward alsoUpward with
    chain | chain
  · exact (notBelow alsoListed listed (Relation.reflTransGen_swap.mp chain)).symm
  · exact notBelow listed alsoListed (Relation.reflTransGen_swap.mp chain)

theorem nodup_unfold (forest : store.IsForest) (depth name : Nat) :
    (store.unfold depth name).preorder.Nodup := by
  induction depth generalizing name with
  | zero => exact List.nodup_singleton name
  | succ depth inductionHypothesis =>
      rw [unfold, preorder, List.nodup_cons, preorderAll_eq_flatMap, List.flatMap_map,
        List.nodup_flatMap]
      refine ⟨?_, fun child _ => inductionHypothesis child, ?_⟩
      · intro member
        rcases List.mem_flatMap.mp member with ⟨child, listed, inside⟩
        have bound := forest.le_of_below (below_of_mem_unfold inside)
        exact absurd bound (Nat.not_le_of_lt (forest.older name child listed))
      · apply (forest.distinct name).imp_of_mem
        intro first second listed alsoListed different inner inFirst inSecond
        exact different (forest.eq_of_below listed alsoListed (below_of_mem_unfold inFirst)
          (below_of_mem_unfold inSecond))

/-- The links agree with the tree down to any depth at which the nodes run out. -/
theorem linked_unfold (forest : store.IsForest) {depth name : Nat} (deep : name ≤ depth)
    (there : name < store.nodes.size) :
    (store.unfold depth name).Everywhere (fun parent name children =>
      store.linksOf? name = some (parent, children)) (store.parentOf? name) := by
  have links (inner : Nat) (present : inner < store.nodes.size) :
      store.linksOf? inner = some (store.parentOf? inner, store.childrenOf inner) := by
    have found : store.node? inner = some store.nodes[inner] := Array.getElem?_eq_getElem present
    rw [linksOf?, parentOf?, childrenOf, found]
    rfl
  induction depth generalizing name with
  | zero =>
      have lowest : store.childrenOf name = [] := by
        apply List.eq_nil_iff_forall_not_mem.mpr
        intro child listed
        exact Nat.not_lt_zero _ (Nat.lt_of_lt_of_le (forest.older name child listed) deep)
      have here := links name there
      rw [lowest] at here
      exact ⟨here, trivial⟩
  | succ depth inductionHypothesis =>
      have values : ((store.childrenOf name).map (store.unfold depth)).map Rose.value =
          store.childrenOf name := by
        rw [List.map_map]
        exact (List.map_congr_left fun child _ => value_unfold store depth child).trans
          (List.map_id _)
      rw [unfold, Everywhere, values, everywhereAll_iff]
      refine ⟨links name there, ?_⟩
      intro tree listed
      rcases List.mem_map.mp listed with ⟨child, childListed, rfl⟩
      have older := forest.older name child childListed
      rw [← forest.linked name child childListed]
      exact inductionHypothesis (by omega) (Nat.lt_trans older there)

/-- The store holds the tree below any node without a parent. -/
theorem holds_outline (forest : store.IsForest) {root : Nat} (there : root < store.nodes.size)
    (top : store.parentOf? root = none) : store.Holds (store.outline root) where
  distinct := forest.nodup_unfold store.nodes.size root
  linked := top ▸ forest.linked_unfold (Nat.le_of_lt there) there

end IsForest

/-! ## Building -/

/-- The store that results from adding nodes one after the other. -/
def build (nodes : List Node) : Store := nodes.foldl add {}

/-- Each node comes after its children, and no node is used as a child twice. -/
structure IsBottomUp (nodes : List Node) : Prop where
  earlier : ∀ entry ∈ nodes.zipIdx, ∀ child ∈ entry.1.children, child < entry.2
  once : (nodes.flatMap Node.children).Nodup

instance (nodes : List Node) : Decidable (IsBottomUp nodes) :=
  decidable_of_iff ((∀ entry ∈ nodes.zipIdx, ∀ child ∈ entry.1.children, child < entry.2) ∧
      (nodes.flatMap Node.children).Nodup)
    ⟨fun both => ⟨both.1, both.2⟩, fun bottomUp => ⟨bottomUp.earlier, bottomUp.once⟩⟩

theorem build_concat (nodes : List Node) (node : Node) :
    build (nodes ++ [node]) = (build nodes).add node := List.foldl_append

theorem size_build (nodes : List Node) : (build nodes).nodes.size = nodes.length := by
  induction nodes using List.reverseRecOn with
  | nil => rfl
  | append_singleton nodes node inductionHypothesis =>
      rw [build_concat, size_add, inductionHypothesis, List.length_append, List.length_singleton]

theorem mem_flatMap_of_mem_childrenOf {nodes : List Node} {owner child : Nat}
    (member : child ∈ (build nodes).childrenOf owner) : child ∈ nodes.flatMap Node.children := by
  induction nodes using List.reverseRecOn with
  | nil =>
      rw [childrenOf_eq_nil (Array.getElem?_eq_none (Nat.zero_le _))] at member
      cases member
  | append_singleton nodes node inductionHypothesis =>
      rw [build_concat, childrenOf_add] at member
      rw [List.flatMap_append, List.mem_append, List.flatMap_singleton]
      split at member
      · exact Or.inr member
      · exact Or.inl (inductionHypothesis member)

/-- A store that is built bottom-up is a forest. -/
theorem isForest_build {nodes : List Node} (bottomUp : IsBottomUp nodes) :
    (build nodes).IsForest := by
  induction nodes using List.reverseRecOn with
  | nil => exact .empty
  | append_singleton nodes node inductionHypothesis =>
      have earlier := bottomUp.earlier
      have once := bottomUp.once
      rw [List.zipIdx_append, List.forall_mem_append] at earlier
      rw [List.flatMap_append, List.flatMap_singleton, List.nodup_append] at once
      rw [build_concat]
      apply (inductionHypothesis ⟨earlier.1, once.1⟩).add
      · intro child listed
        rw [size_build]
        have before := earlier.2 _ List.mem_cons_self child listed
        rwa [Nat.zero_add] at before
      · intro child listed owner member
        exact once.2.2 child (mem_flatMap_of_mem_childrenOf member) child listed rfl
      · exact once.2.1

end Store

end CallbackLint
