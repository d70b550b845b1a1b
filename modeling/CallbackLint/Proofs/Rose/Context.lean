import CallbackLint.Rose

namespace CallbackLint

/-!
# Places in a rose tree

A place in a tree is a subtree together with its context: the way from the
subtree up to the root, with the siblings that the way passes.  Whatever a
traversal does before, inside and after a subtree is read off the context, so
that a statement about a node deep in a tree is an induction on a list.

A property of all nodes that looks at the value above a node and at the values
right below it is `Rose.Everywhere`.  It is decided by recursion on the tree and
used at a place through `Rose.everywhere_fill`.
-/

namespace Rose

variable {α β : Type}

mutual

/-- Induction on a tree, with the statement at hand for each subtree below the
root. -/
@[elab_as_elim, induction_eliminator]
theorem induct {motive : Rose α → Prop}
    (node : ∀ value children, (∀ child ∈ children, motive child) →
      motive (.node value children)) :
    ∀ tree : Rose α, motive tree
  | .node value children => node value children (inductAll node children)

theorem inductAll {motive : Rose α → Prop}
    (node : ∀ value children, (∀ child ∈ children, motive child) →
      motive (.node value children)) :
    ∀ (trees : List (Rose α)), ∀ tree ∈ trees, motive tree
  | first :: rest, tree, member => by
      rcases List.mem_cons.mp member with same | later
      · rw [same]
        exact induct node first
      · exact inductAll node rest tree later

end

/-! ## Lists of trees -/

theorem preorderAll_append (first second : List (Rose α)) :
    preorderAll (first ++ second) = preorderAll first ++ preorderAll second := by
  induction first with
  | nil => rfl
  | cons tree rest inductionHypothesis =>
      simp only [List.cons_append, preorderAll, inductionHypothesis, List.append_assoc]

theorem preorderAll_eq_flatMap (trees : List (Rose α)) :
    preorderAll trees = trees.flatMap preorder := by
  induction trees with
  | nil => rfl
  | cons tree rest inductionHypothesis =>
      rw [preorderAll, inductionHypothesis, List.flatMap_cons]

/-- What the values of a tree lead to begins with what the root leads to. -/
theorem filterMap_preorder (output : α → Option β) (value : α) (children : List (Rose α)) :
    (node value children).preorder.filterMap output =
      (output value).toList ++ (preorderAll children).filterMap output := by
  rw [preorder, List.filterMap_cons]
  cases output value <;> rfl

/-- The roots of some trees are among their values, in the same order. -/
theorem map_value_sublist_preorderAll (trees : List (Rose α)) :
    (trees.map Rose.value).Sublist (preorderAll trees) := by
  induction trees with
  | nil => exact List.Sublist.refl _
  | cons tree rest inductionHypothesis =>
      cases tree with
      | node value children =>
          rw [List.map_cons, preorderAll, preorder, List.cons_append, value_node]
          exact (inductionHypothesis.trans (List.sublist_append_right _ _)).cons_cons value

theorem exists_mem_of_mem_preorderAll {value : α} {trees : List (Rose α)}
    (member : value ∈ preorderAll trees) : ∃ tree ∈ trees, value ∈ tree.preorder := by
  induction trees with
  | nil => cases member
  | cons tree rest inductionHypothesis =>
      rcases List.mem_append.mp member with inTree | inRest
      · exact ⟨tree, List.mem_cons_self, inTree⟩
      · rcases inductionHypothesis inRest with ⟨found, listed, inside⟩
        exact ⟨found, List.mem_cons_of_mem _ listed, inside⟩

theorem preorder_sublist_preorderAll {tree : Rose α} {trees : List (Rose α)}
    (member : tree ∈ trees) : tree.preorder.Sublist (preorderAll trees) := by
  rcases List.append_of_mem member with ⟨before, after, split⟩
  rw [split, preorderAll_append, preorderAll]
  exact (List.sublist_append_left _ _).trans (List.sublist_append_right _ _)

/-- What holds of all values of a tree holds of its root and of those below each child. -/
theorem forall_preorder_iff {property : α → Prop} {value : α} {children : List (Rose α)} :
    (∀ inner ∈ (node value children).preorder, property inner) ↔
      property value ∧ ∀ child ∈ children, ∀ inner ∈ child.preorder, property inner := by
  rw [preorder, List.forall_mem_cons, preorderAll_eq_flatMap, List.forall_mem_flatMap]

theorem value_mem_preorder (tree : Rose α) : tree.value ∈ tree.preorder := by
  cases tree with
  | node value children => exact List.mem_cons_self

theorem size_pos (tree : Rose α) : 0 < tree.size := by
  cases tree with
  | node value children =>
      rw [size]
      exact Nat.succ_pos _

theorem size_le_sizeAll {tree : Rose α} {trees : List (Rose α)} (member : tree ∈ trees) :
    tree.size ≤ sizeAll trees := by
  induction trees with
  | nil => cases member
  | cons first rest inductionHypothesis =>
      rw [sizeAll]
      rcases List.mem_cons.mp member with same | later
      · rw [same]
        exact Nat.le_add_right _ _
      · exact Nat.le_trans (inductionHypothesis later) (Nat.le_add_left _ _)

theorem length_preorder (tree : Rose α) : tree.preorder.length = tree.size := by
  induction tree with
  | node value children inductionHypothesis =>
      rw [preorder, size, List.length_cons]
      congr 1
      induction children with
      | nil => rfl
      | cons first rest restHypothesis =>
          rw [preorderAll, sizeAll, List.length_append,
            inductionHypothesis first List.mem_cons_self,
            restHypothesis fun child member =>
              inductionHypothesis child (List.mem_cons_of_mem _ member)]

/-! ## Contexts -/

/-- What the way from a subtree to the root meets one node higher up: the node,
and the siblings on both sides of the way. -/
structure Crumb (α : Type) where
  value : α
  before : List (Rose α)
  after : List (Rose α)

/-- The way from a subtree to the root, nearest node first. -/
abbrev Context (α : Type) := List (Crumb α)

def Crumb.fill (crumb : Crumb α) (tree : Rose α) : Rose α :=
  .node crumb.value (crumb.before ++ tree :: crumb.after)

/-- The whole tree that a subtree and its context make up. -/
def fill : Context α → Rose α → Rose α
  | [], tree => tree
  | crumb :: context, tree => fill context (crumb.fill tree)

theorem fill_append (inner outer : Context α) (tree : Rose α) :
    fill (inner ++ outer) tree = fill outer (fill inner tree) := by
  induction inner generalizing tree with
  | nil => rfl
  | cons crumb inner inductionHypothesis => exact inductionHypothesis (crumb.fill tree)

/-- A place in a tree is the root, or it is below one of the children. -/
theorem eq_or_exists_mem_of_fill {context : Context α} {tree : Rose α} {value : α}
    {children : List (Rose α)} (place : fill context tree = .node value children) :
    tree = .node value children ∨ ∃ inner, fill inner tree ∈ children := by
  rcases List.eq_nil_or_concat context with top | ⟨inner, crumb, split⟩
  · rw [top] at place
    exact Or.inl place
  · rw [split, List.concat_eq_append, fill_append, fill, fill, Crumb.fill, Rose.node.injEq] at place
    refine Or.inr ⟨inner, ?_⟩
    rw [← place.2]
    exact List.mem_append_right _ List.mem_cons_self

/-- The values above a place, nearest first. -/
def valuesAbove (context : Context α) : List α := context.map Crumb.value

@[simp] theorem valuesAbove_cons (crumb : Crumb α) (context : Context α) :
    valuesAbove (crumb :: context) = crumb.value :: valuesAbove context := rfl

/-- The values that a traversal enters before it comes to a place. -/
def preorderBefore : Context α → List α
  | [] => []
  | crumb :: context => preorderBefore context ++ crumb.value :: preorderAll crumb.before

/-- The values that a traversal enters after it has left a place. -/
def preorderAfter : Context α → List α
  | [] => []
  | crumb :: context => preorderAll crumb.after ++ preorderAfter context

theorem preorder_fill (context : Context α) (tree : Rose α) :
    (fill context tree).preorder =
      preorderBefore context ++ tree.preorder ++ preorderAfter context := by
  induction context generalizing tree with
  | nil => simp only [fill, preorderBefore, preorderAfter, List.nil_append, List.append_nil]
  | cons crumb context inductionHypothesis =>
      rw [fill, inductionHypothesis, Crumb.fill, preorder, preorderAll_append, preorderAll,
        preorderBefore, preorderAfter]
      simp only [List.cons_append, List.append_assoc]

/-- Fewer values in a subtree are fewer values in the tree. -/
theorem preorder_fill_sublist (read : α → β) (context : Context α) {old new : Rose α}
    (fewer : (new.preorder.map read).Sublist (old.preorder.map read)) :
    ((fill context new).preorder.map read).Sublist ((fill context old).preorder.map read) := by
  rw [preorder_fill, preorder_fill, List.map_append, List.map_append, List.map_append,
    List.map_append]
  exact ((List.Sublist.refl _).append fewer).append (List.Sublist.refl _)

/-- Putting a subtree below others leaves its root on the way up. -/
theorem value_fill_mem (context : Context α) (tree : Rose α) :
    (fill context tree).value ∈ tree.value :: valuesAbove context := by
  induction context generalizing tree with
  | nil => exact List.mem_cons_self
  | cons crumb context inductionHypothesis =>
      exact List.mem_cons_of_mem _ (inductionHypothesis (crumb.fill tree))

theorem valuesAbove_subset_preorderBefore (context : Context α) :
    valuesAbove context ⊆ preorderBefore context := by
  induction context with
  | nil => exact List.Subset.refl _
  | cons crumb context inductionHypothesis =>
      intro value member
      rw [preorderBefore]
      rcases List.mem_cons.mp member with same | later
      · exact List.mem_append_right _ (same ▸ List.mem_cons_self)
      · exact List.mem_append_left _ (inductionHypothesis later)

theorem way_subset_preorder (context : Context α) (tree : Rose α) :
    tree.value :: valuesAbove context ⊆ (fill context tree).preorder := by
  rw [preorder_fill]
  intro value member
  rcases List.mem_cons.mp member with same | above
  · rw [same]
    exact List.mem_append_left _ (List.mem_append_right _ (value_mem_preorder tree))
  · exact List.mem_append_left _
      (List.mem_append_left _ (valuesAbove_subset_preorderBefore context above))

/-- What is read of the root of a tree depends only on what is read of the root of the subtree
at a place. -/
theorem read_fill_congr (read : α → β) (context : Context α) {old new : Rose α}
    (same : read new.value = read old.value) :
    read (fill context new).value = read (fill context old).value := by
  induction context generalizing old new with
  | nil => exact same
  | cons crumb context inductionHypothesis => exact inductionHypothesis rfl

/-- The root is one of the nodes above a place, if there are any. -/
theorem read_fill_eq (read : α → β) {common : β} {context : Context α} (below : context ≠ [])
    (each : ∀ crumb ∈ context, read crumb.value = common) (tree : Rose α) :
    read (fill context tree).value = common := by
  cases context with
  | nil => exact False.elim (below rfl)
  | cons crumb context =>
      have above : (fill (crumb :: context) tree).value ∈ valuesAbove (crumb :: context) :=
        value_fill_mem context (crumb.fill tree)
      rcases List.mem_map.mp above with ⟨other, member, same⟩
      rw [← same]
      exact each other member

/-- The root of a tree is seen through the root of the subtree at a place. -/
theorem value_fill_congr (context : Context α) {old new : Rose α} (same : new.value = old.value) :
    (fill context new).value = (fill context old).value := read_fill_congr id context same

/-- One leaf more right after a place. -/
def Crumb.withLeaf (crumb : Crumb α) (leaf : α) : Crumb α :=
  { crumb with after := .node leaf [] :: crumb.after }

/-- A traversal comes to the new leaf between what it meets anyway. -/
theorem preorder_fill_withLeaf (crumb : Crumb α) (context : Context α) (tree : Rose α) (leaf : α) :
    ∃ before after, (fill (crumb :: context) tree).preorder = before ++ after ∧
      (fill (crumb.withLeaf leaf :: context) tree).preorder = before ++ leaf :: after := by
  refine ⟨preorderBefore (crumb :: context) ++ tree.preorder, preorderAfter (crumb :: context),
    preorder_fill _ _, ?_⟩
  rw [preorder_fill]
  rfl

/-- The values above a place form a branch of the tree, read upwards. -/
theorem valuesAbove_sublist (context : Context α) :
    (valuesAbove context).reverse.Sublist (preorderBefore context) := by
  induction context with
  | nil => exact List.Sublist.refl _
  | cons crumb context inductionHypothesis =>
      rw [valuesAbove_cons, List.reverse_cons, preorderBefore]
      exact inductionHypothesis.append ((List.nil_sublist _).cons_cons _)

/-- A context has fewer crumbs than the whole tree has nodes. -/
theorem length_lt_size_fill (context : Context α) (tree : Rose α) :
    context.length < (fill context tree).size := by
  have above := (valuesAbove_sublist context).length_le
  have total := congrArg List.length (preorder_fill context tree)
  have inside := size_pos tree
  rw [length_preorder, List.length_append, List.length_append, length_preorder] at total
  rw [List.length_reverse, valuesAbove, List.length_map] at above
  omega

/-- Every value of a tree has a place there. -/
theorem exists_place_of_mem {tree : Rose α} {value : α} (member : value ∈ tree.preorder) :
    ∃ context children, tree = fill context (.node value children) := by
  induction tree with
  | node root children inductionHypothesis =>
      rcases List.mem_cons.mp member with same | later
      · exact ⟨[], children, by rw [same]; rfl⟩
      · rcases exists_mem_of_mem_preorderAll later with ⟨child, listed, inside⟩
        rcases inductionHypothesis child listed inside with ⟨context, below, place⟩
        rcases List.append_of_mem listed with ⟨before, after, split⟩
        refine ⟨context ++ [{ value := root, before, after }], below, ?_⟩
        rw [fill_append, ← place, split]
        rfl

/-! ## Properties of all nodes -/

mutual

/-- A property holds at every node of a tree.  It may look at the value right
above a node, at the value of the node and at the values right below it. -/
def Everywhere (property : Option α → α → List α → Prop) (parent : Option α) : Rose α → Prop
  | .node value children =>
    property parent value (children.map Rose.value) ∧ EverywhereAll property value children

def EverywhereAll (property : Option α → α → List α → Prop) (parent : α) :
    List (Rose α) → Prop
  | [] => True
  | tree :: rest => Everywhere property (some parent) tree ∧ EverywhereAll property parent rest

end

section Decision

variable (property : Option α → α → List α → Prop)
  [decision : ∀ parent value children, Decidable (property parent value children)]

mutual

/-- A decidable property is decided at all nodes by recursion on the tree. -/
def decideEverywhere (parent : Option α) : (tree : Rose α) →
    Decidable (Everywhere property parent tree)
  | .node value children =>
    @instDecidableAnd _ _ (decision parent value (children.map Rose.value))
      (decideEverywhereAll value children)

def decideEverywhereAll (parent : α) : (trees : List (Rose α)) →
    Decidable (EverywhereAll property parent trees)
  | [] => .isTrue trivial
  | tree :: rest =>
    @instDecidableAnd _ _ (decideEverywhere (some parent) tree) (decideEverywhereAll parent rest)

end

instance (parent : Option α) (tree : Rose α) : Decidable (Everywhere property parent tree) :=
  decideEverywhere property parent tree

end Decision

theorem everywhereAll_iff {property : Option α → α → List α → Prop} {parent : α}
    {trees : List (Rose α)} :
    EverywhereAll property parent trees ↔
      ∀ tree ∈ trees, Everywhere property (some parent) tree := by
  induction trees with
  | nil => simp only [EverywhereAll, List.not_mem_nil, false_imp_iff, implies_true]
  | cons tree rest inductionHypothesis =>
      rw [EverywhereAll, inductionHypothesis, List.forall_mem_cons]

/-- If a property does not look at what is above a node, then it holds everywhere in a
tree if it holds at the root and everywhere in the subtrees. -/
theorem everywhere_node_iff {property : α → List α → Prop} {value : α}
    {children : List (Rose α)} :
    Everywhere (fun _ => property) none (.node value children) ↔
      property value (children.map Rose.value) ∧
        ∀ child ∈ children, Everywhere (fun _ => property) none child := by
  have above : ∀ child : Rose α, Everywhere (fun _ => property) (some value) child ↔
      Everywhere (fun _ => property) none child := fun child => by
    cases child with
    | node inner below => exact Iff.rfl
  rw [Everywhere, everywhereAll_iff]
  simp only [above]

/-- What holds everywhere holds at every place, seen from there. -/
theorem everywhere_fill {property : Option α → α → List α → Prop} {context : Context α}
    {tree : Rose α} (everywhere : Everywhere property none (fill context tree)) :
    Everywhere property (context.head?.map Crumb.value) tree := by
  induction context generalizing tree with
  | nil => exact everywhere
  | cons crumb context inductionHypothesis =>
      have outside := inductionHypothesis everywhere
      rw [Crumb.fill, Everywhere, everywhereAll_iff] at outside
      exact outside.2 tree (List.mem_append_right _ List.mem_cons_self)

/-- A property at every node may be replaced by one that follows from it at the nodes
of the tree. -/
theorem Everywhere.imp {property other : Option α → α → List α → Prop} {tree : Rose α}
    {parent : Option α} (everywhere : Everywhere property parent tree)
    (passes : ∀ value ∈ tree.preorder, ∀ parent children,
      property parent value children → other parent value children) :
    Everywhere other parent tree := by
  induction tree generalizing parent with
  | node value children inductionHypothesis =>
      rw [Everywhere, everywhereAll_iff] at everywhere ⊢
      refine ⟨passes value List.mem_cons_self _ _ everywhere.1, ?_⟩
      intro child member
      apply inductionHypothesis child member (everywhere.2 child member)
      intro inner inside
      have among := (preorder_sublist_preorderAll member).subset inside
      exact passes inner (List.mem_cons_of_mem _ among)

/-- A subtree is changed below its root.  What held everywhere outside passes to another
property there, and inside the other property is at hand. -/
theorem Everywhere.refill {property other : Option α → α → List α → Prop} {context : Context α}
    {old new : Rose α} (everywhere : Everywhere property none (fill context old))
    (sameRoot : new.value = old.value)
    (passes : ∀ value ∈ preorderBefore context ++ preorderAfter context, ∀ parent children,
      property parent value children → other parent value children)
    (inside : Everywhere other (context.head?.map Crumb.value) new) :
    Everywhere other none (fill context new) := by
  induction context generalizing old new with
  | nil => exact inside
  | cons crumb context inductionHypothesis =>
      have higher : Everywhere property none (fill context (crumb.fill old)) := everywhere
      have sameParent : (crumb.fill new).value = (crumb.fill old).value := rfl
      apply inductionHypothesis higher sameParent
      · intro value member
        apply passes value
        rw [preorderBefore, preorderAfter]
        rcases List.mem_append.mp member with before | after
        · exact List.mem_append_left _ (List.mem_append_left _ before)
        · exact List.mem_append_right _ (List.mem_append_right _ after)
      have whole := everywhere_fill higher
      rw [Crumb.fill, Everywhere, everywhereAll_iff] at whole ⊢
      constructor
      · have values : (crumb.before ++ new :: crumb.after).map Rose.value =
            (crumb.before ++ old :: crumb.after).map Rose.value := by
          rw [List.map_append, List.map_append, List.map_cons, List.map_cons, sameRoot]
        rw [values]
        apply passes _ _ _ _ whole.1
        rw [preorderBefore]
        exact List.mem_append_left _ (List.mem_append_right _ List.mem_cons_self)
      · intro sibling listed
        have sides : sibling = new ∨ sibling ∈ crumb.before ∨ sibling ∈ crumb.after := by
          rw [List.mem_append, List.mem_cons] at listed
          exact or_left_comm.mp listed
        rcases sides with same | before | after
        · exact same ▸ inside
        · apply (whole.2 sibling (List.mem_append_left _ before)).imp
          intro value member
          apply passes value
          have among := (preorder_sublist_preorderAll before).subset member
          rw [preorderBefore]
          exact List.mem_append_left _ (List.mem_append_right _ (List.mem_cons_of_mem _ among))
        · apply (whole.2 sibling (List.mem_append_right _ (List.mem_cons_of_mem _ after))).imp
          intro value member
          apply passes value
          have among := (preorder_sublist_preorderAll after).subset member
          rw [preorderAfter]
          exact List.mem_append_right _ (List.mem_append_left _ among)

/-! ## Relabelling -/

mutual

def map (change : α → β) : Rose α → Rose β
  | .node value children => .node (change value) (mapAll change children)

def mapAll (change : α → β) : List (Rose α) → List (Rose β)
  | [] => []
  | tree :: rest => tree.map change :: mapAll change rest

end

theorem mapAll_eq_map (change : α → β) (trees : List (Rose α)) :
    mapAll change trees = trees.map (map change) := by
  induction trees with
  | nil => rfl
  | cons tree rest inductionHypothesis => rw [mapAll, List.map_cons, inductionHypothesis]

theorem value_map (change : α → β) (tree : Rose α) :
    (tree.map change).value = change tree.value := by
  cases tree with
  | node value children => rfl

theorem map_map {γ : Type} (change : α → β) (further : β → γ) (tree : Rose α) :
    (tree.map change).map further = tree.map (further ∘ change) := by
  induction tree with
  | node value children inductionHypothesis =>
      rw [map, map, map, mapAll_eq_map, mapAll_eq_map, mapAll_eq_map, List.map_map]
      exact congrArg (Rose.node _) (List.map_congr_left inductionHypothesis)

theorem map_id (tree : Rose α) : tree.map id = tree := by
  induction tree with
  | node value children inductionHypothesis =>
      rw [map, mapAll_eq_map, List.map_congr_left inductionHypothesis]
      exact congrArg (Rose.node value) (List.map_id children)

theorem map_congr_preorder {change other : α → β} {tree : Rose α}
    (same : ∀ value ∈ tree.preorder, change value = other value) :
    tree.map change = tree.map other := by
  induction tree with
  | node value children inductionHypothesis =>
      rw [map, map, mapAll_eq_map, mapAll_eq_map, same value List.mem_cons_self]
      apply congrArg
      apply List.map_congr_left
      intro child member
      apply inductionHypothesis child member
      intro inner inside
      exact same inner
        (List.mem_cons_of_mem _ ((preorder_sublist_preorderAll member).subset inside))

mutual

theorem preorder_map (change : α → β) : (tree : Rose α) →
    (tree.map change).preorder = tree.preorder.map change
  | .node value children => by
      rw [map, preorder, preorder, List.map_cons, preorderAll_mapAll]

theorem preorderAll_mapAll (change : α → β) : (trees : List (Rose α)) →
    preorderAll (mapAll change trees) = (preorderAll trees).map change
  | [] => rfl
  | tree :: rest => by
      rw [mapAll, preorderAll, preorderAll, List.map_append, preorder_map, preorderAll_mapAll]

end

theorem head?_mapAll (change : α → β) (trees : List (Rose α)) :
    (mapAll change trees).head?.map Rose.value = trees.head?.map fun tree => change tree.value := by
  cases trees with
  | nil => rfl
  | cons tree rest => exact congrArg some (value_map change tree)

def Crumb.map (change : α → β) (crumb : Crumb α) : Crumb β :=
  { value := change crumb.value, before := mapAll change crumb.before
    after := mapAll change crumb.after }

/-- The context of a place in the tree with changed values. -/
def mapContext (change : α → β) (context : Context α) : Context β :=
  context.map (Crumb.map change)

theorem mapContext_append_cons (change : α → β) (inner outer : Context α) (crumb : Crumb α) :
    mapContext change (inner ++ crumb :: outer) =
      mapContext change inner ++ crumb.map change :: mapContext change outer := List.map_append

theorem map_fill (change : α → β) (context : Context α) (tree : Rose α) :
    (fill context tree).map change = fill (mapContext change context) (tree.map change) := by
  induction context generalizing tree with
  | nil => rfl
  | cons crumb context inductionHypothesis =>
      rw [fill, inductionHypothesis]
      simp only [mapContext, List.map_cons, fill, Crumb.fill, Crumb.map, map, mapAll_eq_map,
        List.map_append]

/-- What holds everywhere and passes to changed values holds everywhere in the
tree with changed values. -/
theorem everywhere_map {change : α → β} {property : Option α → α → List α → Prop}
    {changed : Option β → β → List β → Prop}
    (passes : ∀ parent value children, property parent value children →
      changed (parent.map change) (change value) (children.map change))
    {tree : Rose α} {parent : Option α} (everywhere : Everywhere property parent tree) :
    Everywhere changed (parent.map change) (tree.map change) := by
  induction tree generalizing parent with
  | node value children inductionHypothesis =>
      have values : (children.map (map change)).map Rose.value =
          (children.map Rose.value).map change := by
        rw [List.map_map, List.map_map]
        exact List.map_congr_left fun child _ => value_map change child
      rw [map, mapAll_eq_map, Everywhere, values, everywhereAll_iff, List.forall_mem_map]
      rw [Everywhere, everywhereAll_iff] at everywhere
      refine ⟨passes _ _ _ everywhere.1, ?_⟩
      intro child member
      exact inductionHypothesis child member (everywhere.2 child member)

end Rose

end CallbackLint
