import CallbackLint.Proofs.Syntax.Links
import Mathlib.Data.List.Range

namespace CallbackLint

open Rose

/-!
# Stores that record a syntax tree

Laying out a syntax tree gives every node a name.  `Store.numbered` is the tree
with these names at its nodes, and `Store.Records` says that a store keeps, under
each name, the node that the tree has there, with the body of a function found
among its children.  Other ways to name the nodes are as good: whatever is
proved of a store that records a tree does not depend on the names.
-/

namespace Store

/-! ## Recording -/

/-- The node that stands for a named label between a parent and some children. -/
def entry (parent : Option (Nat × Label)) (node : Nat × Label)
    (children : List (Nat × Label)) : Node :=
  { kind := node.2.kind, position := node.2.position, callee := node.2.callee
    children := children.map Prod.fst, parent := parent.map Prod.fst
    body := node.2.body.bind fun index => (children.map Prod.fst)[index]? }

/-- A store records a tree of named labels: each label is in the store under its name, with links to
the nodes around it. -/
structure Records (store : Store) (shape : Rose (Nat × Label)) : Prop where
  /-- No name is given twice. -/
  distinct : (shape.map Prod.fst).preorder.Nodup
  /-- Every node is kept under its name. -/
  recorded : shape.Everywhere (fun parent node children =>
    store.node? node.1 = some (entry parent node children)) none

namespace Records

variable {store : Store} {shape : Rose (Nat × Label)}

/-- A store that records a tree has its links. -/
theorem holds (records : store.Records shape) : store.Holds (shape.map Prod.fst) where
  distinct := records.distinct
  linked := by
    have passes : ∀ parent node children, store.node? node.1 = some (entry parent node children) →
        store.linksOf? node.1 = some (parent.map Prod.fst, children.map Prod.fst) := by
      intro parent node children recorded
      rw [linksOf?, recorded]
      rfl
    exact everywhere_map passes records.recorded

/-- The node that is recorded at a place. -/
theorem node?_eq {context : Context (Nat × Label)} {node : Nat × Label}
    {below : List (Rose (Nat × Label))}
    (records : store.Records (fill context (.node node below))) :
    store.node? node.1 =
      some (entry (context.head?.map Crumb.value) node (below.map Rose.value)) :=
  (everywhere_fill records.recorded).1

end Records

/-! ## The names of a layout -/

mutual

/-- A tree with the names that laying it out from `name` on gives to its nodes. -/
def numbered (name : Nat) : Tree → Rose (Nat × Label)
  | .node label children => .node (name, label) (numberedAll (name + 1) children)

/-- Adjacent trees with the names that laying them out gives to their nodes. -/
def numberedAll (name : Nat) : List Tree → List (Rose (Nat × Label))
  | [] => []
  | tree :: rest => numbered name tree :: numberedAll (name + tree.size) rest

end

theorem value_numbered (name : Nat) (tree : Tree) :
    (numbered name tree).value = (name, tree.value) := by
  cases tree with
  | node label children => rfl

theorem namesFrom_eq (name : Nat) (trees : List Tree) :
    namesFrom name trees = ((numberedAll name trees).map Rose.value).map Prod.fst := by
  induction trees generalizing name with
  | nil => rfl
  | cons tree rest inductionHypothesis =>
      rw [namesFrom, numberedAll, List.map_cons, List.map_cons, value_numbered,
        inductionHypothesis]

mutual

theorem map_numbered (name : Nat) : (tree : Tree) → (numbered name tree).map Prod.snd = tree
  | .node label children => by rw [numbered, Rose.map, mapAll_numberedAll]

theorem mapAll_numberedAll (name : Nat) : (trees : List Tree) →
    mapAll Prod.snd (numberedAll name trees) = trees
  | [] => rfl
  | tree :: rest => by rw [numberedAll, mapAll, map_numbered, mapAll_numberedAll]

end

mutual

/-- The names are given in preorder, without a gap. -/
theorem preorder_numbered (name : Nat) : (tree : Tree) →
    ((numbered name tree).map Prod.fst).preorder = List.range' name tree.size
  | .node label children => by
      rw [numbered, Rose.map, preorder, preorderAll_numberedAll, size, List.range'_succ]

theorem preorderAll_numberedAll (name : Nat) : (trees : List Tree) →
    preorderAll (mapAll Prod.fst (numberedAll name trees)) = List.range' name (sizeAll trees)
  | [] => rfl
  | tree :: rest => by
      rw [numberedAll, mapAll, preorderAll, preorder_numbered, preorderAll_numberedAll, sizeAll,
        List.range'_append_1]

end

/-! ## The nodes of a layout -/

mutual

theorem length_layout (name : Nat) (parent : Option Nat) : (tree : Tree) →
    (layout name parent tree).length = tree.size
  | .node label children => by rw [layout, List.length_cons, length_layoutAll, size]

theorem length_layoutAll (name : Nat) (parent : Option Nat) : (trees : List Tree) →
    (layoutAll name parent trees).length = sizeAll trees
  | [] => rfl
  | tree :: rest => by
      rw [layoutAll, List.length_append, length_layout, length_layoutAll, sizeAll]

end

variable {store : Store}

mutual

/-- Where the nodes of a store go on with a layout, the tree is recorded. -/
theorem recorded_layout {name : Nat} {before after : List Node} (here : before.length = name)
    (parent : Option (Nat × Label)) : (tree : Tree) →
    store.nodes.toList = before ++ (layout name (parent.map Prod.fst) tree ++ after) →
    (numbered name tree).Everywhere (fun parent node children =>
      store.node? node.1 = some (entry parent node children)) parent
  | .node label children, split => by
      rw [layout, List.cons_append] at split
      rw [numbered, Everywhere]
      constructor
      · rw [node?, ← Array.getElem?_toList, split, ← here,
          List.getElem?_append_right (Nat.le_refl _), Nat.sub_self, List.getElem?_cons_zero,
          namesFrom_eq]
        rfl
      · rw [List.append_cons] at split
        have next : (before ++ [entry parent (name, label)
            ((numberedAll (name + 1) children).map Rose.value)]).length = name + 1 := by
          rw [List.length_append, List.length_singleton, here]
        rw [namesFrom_eq] at split
        exact recorded_layoutAll next (name, label) children split

theorem recorded_layoutAll {name : Nat} {before after : List Node} (here : before.length = name)
    (parent : Nat × Label) : (trees : List Tree) →
    store.nodes.toList = before ++ (layoutAll name (some parent.1) trees ++ after) →
    EverywhereAll (fun parent node children =>
      store.node? node.1 = some (entry parent node children)) parent (numberedAll name trees)
  | [], _ => trivial
  | tree :: rest, split => by
      rw [layoutAll, List.append_assoc] at split
      rw [numberedAll, EverywhereAll]
      refine ⟨recorded_layout here (some parent) tree split, ?_⟩
      rw [← List.append_assoc] at split
      have next : (before ++ layout name (some parent.1) tree).length = name + tree.size := by
        rw [List.length_append, length_layout, here]
      exact recorded_layoutAll next parent rest split

end

/-- The store that a tree is laid out in records the tree, under the names in
preorder. -/
theorem records_ofTree (tree : Tree) : (ofTree tree).Records (numbered 0 tree) where
  distinct := by
    rw [preorder_numbered]
    exact List.nodup_range'
  recorded := by
    have atStart : ([] : List Node).length = 0 := rfl
    have whole : (ofTree tree).nodes.toList = [] ++ (layout 0 none tree ++ []) := by
      rw [List.append_nil, List.nil_append]
      rfl
    exact recorded_layout atStart none tree whole

end Store

end CallbackLint
