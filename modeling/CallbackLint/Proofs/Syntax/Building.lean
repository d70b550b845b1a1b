import CallbackLint.Concrete.Assembly
import CallbackLint.Proofs.Syntax.Layout
import Mathlib.Data.List.Flatten
import Mathlib.Data.List.Perm.Basic

namespace CallbackLint

open Rose

/-!
# Building linked nodes

A store under construction keeps several trees that have no node in common.  Adding
a node on top of some of them changes one link in each of these, that of the root to
its new parent, and nothing anywhere else.  So the store keeps the new tree in
their place, and the others as before.
-/

namespace Rose

/-- Where no key occurs twice, a node of one of some trees has the key of a root only
if it is the root of its own tree. -/
theorem eq_value_of_key_mem {α : Type} {key : α → Nat} {trees : List (Rose α)} {tree : Rose α}
    {value : α} (distinct : ((preorderAll trees).map key).Nodup) (member : tree ∈ trees)
    (inside : value ∈ tree.preorder) (listed : key value ∈ (trees.map Rose.value).map key) :
    value = tree.value := by
  induction trees with
  | nil => cases member
  | cons first rest inductionHypothesis =>
      rw [preorderAll, List.map_append, List.nodup_append] at distinct
      rw [List.map_cons, List.map_cons] at listed
      rcases List.mem_cons.mp member with same | later
      · rw [same] at inside ⊢
        rcases List.mem_cons.mp listed with here | elsewhere
        · exact List.inj_on_of_nodup_map distinct.1 inside (value_mem_preorder first) here
        · have among := ((map_value_sublist_preorderAll rest).map key).subset elsewhere
          exact False.elim (distinct.2.2 _ (List.mem_map_of_mem inside) _ among rfl)
      · rcases List.mem_cons.mp listed with here | elsewhere
        · have among := List.mem_map_of_mem (f := key) ((preorder_sublist_preorderAll later).subset inside)
          exact False.elim
            (distinct.2.2 _ (List.mem_map_of_mem (value_mem_preorder first)) _ among here.symm)
        · exact inductionHypothesis distinct.2.1 later elsewhere

end Rose

namespace Store

/-! ## What adding a node changes -/

theorem node?_revise (store : Store) (target name : Nat) (change : Node → Node) :
    (store.revise target change).node? name =
      if name = target then (store.node? name).map change else store.node? name := by
  simp only [revise, node?, Array.getElem?_modify, eq_comm]

/-- A node with another parent. -/
def under (parent : Nat) (node : Node) : Node := { node with parent := some parent }

theorem node?_adopt (store : Store) (parent name : Nat) (children : List Nat) :
    (store.adopt parent children).node? name =
      if name ∈ children then (store.node? name).map (under parent) else store.node? name := by
  induction children generalizing store with
  | nil => rfl
  | cons child rest inductionHypothesis =>
      have next : store.adopt parent (child :: rest) =
          (store.revise child (under parent)).adopt parent rest := rfl
      rw [next, inductionHypothesis, node?_revise]
      by_cases same : name = child
      · rw [if_pos same, if_pos (List.mem_cons.mpr (Or.inl same)), Option.map_map]
        exact ite_self _
      · rw [if_neg same]
        simp only [List.mem_cons, same, false_or]

theorem size_adopt (store : Store) (parent : Nat) (children : List Nat) :
    (store.adopt parent children).nodes.size = store.nodes.size := by
  induction children generalizing store with
  | nil => rfl
  | cons child rest inductionHypothesis =>
      have next : store.adopt parent (child :: rest) =
          (store.revise child (under parent)).adopt parent rest := rfl
      rw [next, inductionHypothesis, revise, Array.size_modify]

/-- The new node is kept as it was given. -/
theorem node?_add_self (store : Store) (node : Node) :
    (store.add node).node? store.nodes.size = some node := by
  rw [add, node?, Array.getElem?_push, size_adopt, if_pos rfl]

/-- Of the nodes that were there before, the children of the new one get another
parent. -/
theorem node?_add_of_lt {store : Store} {name : Nat} (node : Node)
    (old : name < store.nodes.size) :
    (store.add node).node? name =
      if name ∈ node.children then (store.node? name).map (under store.nodes.size)
      else store.node? name := by
  rw [← node?_adopt, add, node?, node?, Array.getElem?_push, size_adopt,
    if_neg (Nat.ne_of_lt old)]

/-! ## Keeping several trees -/

/-- A store has the node of a named label between a parent and some children. -/
def Keeping (store : Store) (parent : Option (Nat × Label)) (node : Nat × Label)
    (children : List (Nat × Label)) : Prop :=
  store.node? node.1 = some (entry parent node children)

/-- A store keeps some trees of named labels, which have no node in common.  These are the trees
built so far whose parents are still to come. -/
structure Keeps (store : Store) (shapes : List (Rose (Nat × Label))) : Prop where
  distinct : ((preorderAll shapes).map Prod.fst).Nodup
  recorded : ∀ shape ∈ shapes, shape.Everywhere store.Keeping none

namespace Keeps

variable {store : Store} {shapes : List (Rose (Nat × Label))}

theorem perm {others : List (Rose (Nat × Label))} (keeps : store.Keeps shapes)
    (same : shapes.Perm others) : store.Keeps others where
  distinct := by
    have names := keeps.distinct
    rw [preorderAll_eq_flatMap] at names ⊢
    exact ((same.flatMap fun _ _ => List.Perm.refl _).map Prod.fst).nodup_iff.mp names
  recorded := fun shape member => keeps.recorded shape (same.mem_iff.mpr member)

theorem sublist {others : List (Rose (Nat × Label))} (keeps : store.Keeps shapes)
    (among : others.Sublist shapes) : store.Keeps others where
  distinct := by
    have names := keeps.distinct
    rw [preorderAll_eq_flatMap] at names ⊢
    exact names.sublist ((among.flatMap preorder).map Prod.fst)
  recorded := fun shape member => keeps.recorded shape (among.subset member)

/-- Each of the trees is recorded. -/
theorem records {shape : Rose (Nat × Label)} (keeps : store.Keeps shapes)
    (member : shape ∈ shapes) : store.Records shape where
  distinct := by
    have alone := (keeps.sublist (List.singleton_sublist.mpr member)).distinct
    rw [preorderAll, preorderAll, List.append_nil] at alone
    rw [preorder_map]
    exact alone
  recorded := keeps.recorded shape member

theorem lt_size {node : Nat × Label} (keeps : store.Keeps shapes)
    (member : node ∈ preorderAll shapes) : node.1 < store.nodes.size := by
  rcases exists_mem_of_mem_preorderAll member with ⟨shape, listed, inside⟩
  rcases exists_place_of_mem inside with ⟨context, children, place⟩
  have records := keeps.records listed
  rw [place] at records
  exact (Array.getElem?_eq_some_iff.mp records.node?_eq).1

/-! ## Adding a node on top -/

variable {label : Label} {below others : List (Rose (Nat × Label))} {node : Node}

/-- A tree without children of the new node stays as it is. -/
theorem keeping_add {tree : Rose (Nat × Label)} {parent : Option (Nat × Label)}
    (old : ∀ kept ∈ tree.preorder, kept.1 < store.nodes.size)
    (apart : ∀ kept ∈ tree.preorder, kept.1 ∉ node.children)
    (recorded : tree.Everywhere store.Keeping parent) :
    tree.Everywhere (store.add node).Keeping parent := by
  apply recorded.imp
  intro kept inside upper values keeping
  rw [Keeping, node?_add_of_lt node (old kept inside), if_neg (apart kept inside)]
  exact keeping

/-- A child of the new node has it for its parent, and what is below the child stays
as it is. -/
theorem keeping_add_child {tree : Rose (Nat × Label)}
    (distinct : (tree.preorder.map Prod.fst).Nodup)
    (old : ∀ kept ∈ tree.preorder, kept.1 < store.nodes.size)
    (only : ∀ kept ∈ tree.preorder, kept.1 ∈ node.children ↔ kept = tree.value)
    (recorded : tree.Everywhere store.Keeping none) :
    tree.Everywhere (store.add node).Keeping (some (store.nodes.size, label)) := by
  rcases tree with ⟨kept, values⟩
  rw [preorder] at old only distinct
  rw [List.map_cons, List.nodup_cons] at distinct
  rw [Everywhere, everywhereAll_iff] at recorded ⊢
  constructor
  · have child := (only kept List.mem_cons_self).mpr rfl
    rw [Keeping, node?_add_of_lt node (old kept List.mem_cons_self), if_pos child, recorded.1]
    rfl
  · intro inner listed
    have down : ∀ deep ∈ inner.preorder, deep ∈ preorderAll values :=
      fun deep inside => (preorder_sublist_preorderAll listed).subset inside
    apply keeping_add _ _ (recorded.2 inner listed)
    · intro deep inside
      exact old deep (List.mem_cons_of_mem _ (down deep inside))
    · intro deep inside child
      have root := (only deep (List.mem_cons_of_mem _ (down deep inside))).mp child
      exact distinct.1 (List.mem_map.mpr ⟨deep, down deep inside, congrArg Prod.fst root⟩)

/-- A new node that lists the roots of some trees takes these trees below it. -/
theorem add (keeps : store.Keeps (below ++ others))
    (stands : node = entry none (store.nodes.size, label) (below.map Rose.value)) :
    (store.add node).Keeps (.node (store.nodes.size, label) below :: others) := by
  have children : node.children = (below.map Rose.value).map Prod.fst := by
    rw [stands]
    rfl
  have old : ∀ shape ∈ below ++ others, ∀ kept ∈ shape.preorder, kept.1 < store.nodes.size :=
    fun shape member kept inside =>
      keeps.lt_size ((preorder_sublist_preorderAll member).subset inside)
  have distinct := keeps.distinct
  rw [preorderAll_append, List.map_append, List.nodup_append] at distinct
  constructor
  · -- The new name is not taken, since the names so far are smaller.
    rw [preorderAll, preorder, List.cons_append, List.map_cons, ← preorderAll_append,
      List.nodup_cons]
    refine ⟨?_, keeps.distinct⟩
    intro taken
    rcases List.mem_map.mp taken with ⟨kept, member, same⟩
    exact Nat.lt_irrefl _ (same ▸ keeps.lt_size member)
  · intro shape member
    rcases List.mem_cons.mp member with new | other
    · rw [new, Everywhere, everywhereAll_iff]
      refine ⟨?_, ?_⟩
      · rw [Keeping, node?_add_self, stands]
      · intro child listed
        have among := preorder_sublist_preorderAll listed
        apply keeping_add_child
        · exact distinct.1.sublist (among.map Prod.fst)
        · exact old child (List.mem_append_left _ listed)
        · intro kept inside
          rw [children]
          constructor
          · exact eq_value_of_key_mem distinct.1 listed inside
          · intro root
            exact root ▸ List.mem_map_of_mem (List.mem_map_of_mem listed)
        · exact keeps.recorded child (List.mem_append_left _ listed)
    · apply keeping_add (old shape (List.mem_append_right _ other))
      · intro kept inside child
        rw [children] at child
        have left := ((map_value_sublist_preorderAll below).map Prod.fst).subset child
        have right := List.mem_map_of_mem (f := Prod.fst)
          ((preorder_sublist_preorderAll other).subset inside)
        exact distinct.2.2 _ left _ right rfl
      · exact keeps.recorded shape (List.mem_append_right _ other)

end Keeps

/-- Building has led to a store and a name: under the name the store keeps a tree, and
it keeps other trees besides. -/
def Offers (built : Store × Nat) (others : List (Rose (Nat × Label))) (tree : Tree) : Prop :=
  ∃ shape, built.1.Keeps (shape :: others) ∧ shape.value.1 = built.2 ∧ shape.map Prod.snd = tree

theorem Keeps.grow {store : Store} {label : Label} {below others : List (Rose (Nat × Label))}
    {node : Node} (keeps : store.Keeps (below ++ others))
    (stands : node = entry none (store.nodes.size, label) (below.map Rose.value)) :
    Offers (store.grow node) others (.node label (below.map (Rose.map Prod.snd))) := by
  refine ⟨_, keeps.add stands, ?_, ?_⟩
  · rfl
  · rw [Rose.map, mapAll_eq_map]

end Store

end CallbackLint
