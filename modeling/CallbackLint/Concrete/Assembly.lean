import CallbackLint.Concrete.Lowering

namespace CallbackLint

/-!
# Lowering to linked nodes

Lowering can build linked nodes right away instead of a plain tree.  A node is added
to the store after its children, which name it as their parent from then on, and
the table keeps the names of the nodes that are still without a parent.

A collapsed wrapper adds no node: it passes the name of its only child on.  The
branch of a `switch` adds two nodes, first the block of its statements and then
itself.  The body of a function is the name that one of its children has.
-/

namespace Store

def grow (store : Store) (node : Node) : Store × Nat := (store.add node, store.nodes.size)

end Store

namespace Lowering

/-! ## One node -/

/-- What the last child of an identity became, with `found` as the answer so far. -/
def lastOf (identity : Int) (found : Option Nat) : Lowered Nat → Option Nat
  | [] => found
  | (child, name) :: rest => lastOf identity (if child = identity then name else found) rest

def bodyName? (node : Concrete) (lowered : Lowered Nat) : Option Nat :=
  (node.identityInRole? "body").bind fun identity => lastOf identity none lowered

/-- Build the branch of a `switch` and the block of its statements. -/
def assembleCase (store : Store) (node : Concrete) (lowered : Lowered Nat)
    (position : Position) : Store × Nat :=
  let value := node.identityInRole? "value"
  let values := lowered.filter fun child => value == some child.1
  let statements := present (lowered.filter fun child => value != some child.1)
  let start := ((statements.head?.bind store.node?).map Node.position).getD position
  let block := store.grow { kind := .block, position := start, children := statements }
  block.1.grow { kind := .switchCase, position, children := present values ++ [block.2] }

/-- Build what a node becomes, from the names of what its children became.  The constructs are told
apart as they are for plain trees, but a collapsed wrapper adds nothing to the store. -/
def assemble (source : List UInt8) (store : Store) (node : Concrete) (lowered : Lowered Nat) :
    Store × Nat :=
  let position := node.value.position source
  let type := node.value.type
  let children := present lowered
  if wrapperTypes.contains type then
    match children with
    | [inner] => (store, inner)
    | children => store.grow { kind := .other, position, children }
  else if isCall node then
    store.grow { kind := .call, position, callee := calleeOf? source node, children }
  else if functionTypes.contains type then
    store.grow { kind := .function, position, children, body := bodyName? node lowered }
  else if caseTypes.contains type then
    assembleCase store node lowered position
  else
    store.grow { kind := plainKind node, position, children }

/-- Put a program around what was built, unless it is a program already. -/
def encloseProgram (position : Position) (built : Store × Nat) : Store × Nat :=
  match built.1.kind? built.2 with
  | some .program => built
  | _ => built.1.grow { kind := .program, position, children := [built.2] }

/-! ## The whole tree -/

/-- The nodes built so far, and the names of those whose parent is still to come. -/
structure Assembly where
  store : Store := {}
  results : Results Nat := []

namespace Assembly

/-- What leaving a node does: it takes the results of its children, is built from
them, and puts its own name into the table. -/
def settle (source : List UInt8) (assembly : Assembly) (node : Concrete) : Assembly :=
  let taken :=
    assembly.results.takeAll (node.visibleChildren.map fun child => child.value.identity)
  let built := assemble source assembly.store node taken.1
  { store := built.1, results := taken.2.put node.value.identity built.2 }

def step (source : List UInt8) (assembly : Assembly) : Visit Concrete → Assembly
  | .enter _ => assembly
  | .leave node => assembly.settle source node

def ofRoot (source : List UInt8) (root : Concrete) : Assembly :=
  root.visible.guide (step source) {}

end Assembly

end Lowering

namespace Script

/-- The linked nodes of a script, and the name of the program at their root. -/
def assembled (script : Script) : Store × Nat :=
  let position := script.root.value.position script.source
  let assembly := Lowering.Assembly.ofRoot script.source script.root
  let built := match assembly.results.get? script.root.value.identity with
    | some name => (assembly.store, name)
    | none => assembly.store.grow { kind := .program, position }
  Lowering.encloseProgram position built

end Script

end CallbackLint
