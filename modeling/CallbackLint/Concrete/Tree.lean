import CallbackLint.Rose
import CallbackLint.Syntax.Tree
import CallbackLint.Text.Utf8

namespace CallbackLint

/-!
# Concrete trees

A concrete tree records how a script was read: every construct of the
language, with the bytes it covers.  Its nodes have a type, which is the name of a
construct or the text of a token, and a child may have a role in its parent,
its field.

Nodes carry identities so that a node can be told from its siblings.  Nothing
forces two nodes to have different identities.
-/

/-- What a concrete node says about itself. -/
structure ConcreteLabel where
  /-- The construct, or the text of a token. -/
  type : String
  /-- Whether the node is a construct rather than a mere token. -/
  named : Bool := true
  /-- The role of the node in its parent. -/
  field : Option String := none
  identity : Int := 0
  /-- How many lines there are before the line of the first byte. -/
  row : Nat := 0
  /-- How many bytes of its line there are before the first byte. -/
  column : Nat := 0
  /-- How many bytes there are before the first byte. -/
  start : Nat := 0
  /-- How many bytes there are up to the end of the node. -/
  stop : Nat := 0
  /-- Whether the text of the node is known. -/
  hasText : Bool := true
deriving DecidableEq, Repr

abbrev Concrete := Rose ConcreteLabel

/-- The bytes from one place to another.  A negative place counts from the end. -/
def sliceBytes (bytes : List UInt8) (first : Int) (last : Nat) : List UInt8 :=
  let first := if first < 0 then (bytes.length + first).toNat else first.toNat
  (bytes.drop first).take (last - first)

namespace ConcreteLabel

/-- Whether a node takes part in lowering: it is a construct and no comment. -/
def isVisible (label : ConcreteLabel) : Bool := label.named && label.type != "comment"

/-- The bytes that a node covers; none if its text is not known. -/
def bytes (label : ConcreteLabel) (source : List UInt8) : List UInt8 :=
  if label.hasText then sliceBytes source label.start label.stop else []

/-- The line of a node, and its column in characters. -/
def position (label : ConcreteLabel) (source : List UInt8) : Position :=
  let before := sliceBytes source ((label.start : Int) - label.column) label.start
  { line := label.row + 1, column := Utf8.count before + 1 }

end ConcreteLabel

namespace Concrete

def childInRole? (node : Concrete) (role : String) : Option Concrete :=
  node.children.find? fun child => child.value.field == some role

def typeInRole? (node : Concrete) (role : String) : Option String :=
  (node.childInRole? role).map fun child => child.value.type

def identityInRole? (node : Concrete) (role : String) : Option Int :=
  (node.childInRole? role).map fun child => child.value.identity

/-- The children that take part in lowering. -/
def visibleChildren (node : Concrete) : List Concrete :=
  node.children.filter fun child => child.value.isVisible

mutual

/-- The tree of the nodes that lowering visits.  Each of its values is a whole
node, with the children that lowering does not visit. -/
def visible : Concrete → Rose Concrete
  | .node label children => .node (.node label children) (visibleAll children)

/-- The trees of those among some nodes that lowering visits. -/
def visibleAll : List Concrete → List (Rose Concrete)
  | [] => []
  | .node label children :: rest =>
    if label.isVisible then visible (.node label children) :: visibleAll rest
    else visibleAll rest

end

end Concrete

end CallbackLint
