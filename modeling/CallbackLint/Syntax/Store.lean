import CallbackLint.Syntax.Tree

namespace CallbackLint

/-!
# Linked syntax nodes

The rule looks at a call from the inside: at its parent, at the statement after
it, at every node around it.  A store keeps nodes that know their surroundings.
A node is named by its place in the store, so that two nodes are the same node
exactly when their names are equal, whatever they hold.

Links are plain data.  Adding a node makes it the parent of its children, and
nothing else keeps the links consistent; `Store.ofTree` lays out a syntax tree
so that they are.
-/

/-- A syntax node with links to its surroundings. -/
structure Node where
  kind : Kind
  position : Position
  callee : Option String := none
  children : List Nat := []
  parent : Option Nat := none
  body : Option Nat := none
deriving DecidableEq, Repr

/-- Syntax nodes, named by their places. -/
structure Store where
  nodes : Array Node := #[]

namespace Store

/-! ## Looking around -/

def node? (store : Store) (name : Nat) : Option Node := store.nodes[name]?

def kind? (store : Store) (name : Nat) : Option Kind :=
  (store.node? name).map Node.kind

def childrenOf (store : Store) (name : Nat) : List Nat :=
  match store.node? name with
  | some node => node.children
  | none => []

def parentOf? (store : Store) (name : Nat) : Option Nat :=
  (store.node? name).bind Node.parent

def bodyOf? (store : Store) (name : Nat) : Option Nat :=
  (store.node? name).bind Node.body

/-- The place of a node among its parent's children; a parent that does not
list the node gives it no place. -/
def indexInParent? (store : Store) (name : Nat) : Option Nat :=
  (store.parentOf? name).bind fun parent => (store.childrenOf parent).idxOf? name

/-- The child of the same parent that comes right after a node. -/
def nextSibling? (store : Store) (name : Nat) : Option Nat :=
  (store.parentOf? name).bind fun parent =>
    (store.indexInParent? name).bind fun index => (store.childrenOf parent)[index + 1]?

/-- At most `limit` nodes above a node, nearest first. -/
def climb (store : Store) : Nat → Nat → List Nat
  | 0, _ => []
  | limit + 1, name =>
    match store.parentOf? name with
    | some parent => parent :: climb store limit parent
    | none => []

/-- The nodes above a node, nearest first.  A chain of parents without a cycle is no longer than the
store, so the bound cuts off nothing but cycles. -/
def ancestors (store : Store) (name : Nat) : List Nat :=
  store.climb store.nodes.size name

/-- The nodes reached from a node through children, down to a given depth. -/
def unfold (store : Store) : Nat → Nat → Rose Nat
  | 0, name => .node name []
  | depth + 1, name => .node name ((store.childrenOf name).map (unfold store depth))

/-- The tree of names below a node.  A chain of children without a cycle is no
longer than the store. -/
def outline (store : Store) (name : Nat) : Rose Nat :=
  store.unfold store.nodes.size name

/-! ## Building -/

/-- Change one node and nothing else. -/
def revise (store : Store) (name : Nat) (change : Node → Node) : Store :=
  { store with nodes := store.nodes.modify name change }

/-- Make a node the parent of some nodes. -/
def adopt (store : Store) (parent : Nat) (children : List Nat) : Store :=
  children.foldl (fun store child => store.revise child fun node =>
    { node with parent := some parent }) store

/-- Add a node.  It becomes the parent of its children and takes the first free
name, which is the size of the store before. -/
def add (store : Store) (node : Node) : Store :=
  { nodes := (store.adopt store.nodes.size node.children).nodes.push node }

/-! ## Laying out a tree -/

/-- The names of adjacent trees, the first of which has the name `first`. -/
def namesFrom (first : Nat) : List Tree → List Nat
  | [] => []
  | tree :: rest => first :: namesFrom (first + tree.size) rest

mutual

/-- The nodes of a tree in preorder, when its root gets the name `name`. -/
def layout (name : Nat) (parent : Option Nat) : Tree → List Node
  | .node label children =>
    let names := namesFrom (name + 1) children
    { kind := label.kind, position := label.position, callee := label.callee,
      children := names, parent, body := label.body.bind fun index => names[index]? } ::
      layoutAll (name + 1) (some name) children

def layoutAll (name : Nat) (parent : Option Nat) : List Tree → List Node
  | [] => []
  | tree :: rest => layout name parent tree ++ layoutAll (name + tree.size) parent rest

end

/-- A store that holds exactly the nodes of a tree, in preorder; the root has
the name zero. -/
def ofTree (tree : Tree) : Store := { nodes := (layout 0 none tree).toArray }

end Store

end CallbackLint
