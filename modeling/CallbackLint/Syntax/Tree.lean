import CallbackLint.Rose
import CallbackLint.Syntax.Kind

namespace CallbackLint

/-!
# Syntax trees

A syntax tree is what lowering makes of a script: nodes of the kinds that the
rule knows, each at a source position.  It is a plain value, in which the body
of a function is named by its place among the function's own children.
-/

/-- A place in a source text; lines and columns both count from one. -/
structure Position where
  line : Int
  column : Int
deriving DecidableEq, Repr

/-- What a syntax node says about itself. -/
structure Label where
  kind : Kind
  position : Position
  /-- The identifier that a call names, if its callee is a plain identifier. -/
  callee : Option String := none
  /-- Which child is the body of this function. -/
  body : Option Nat := none
deriving DecidableEq, Repr

abbrev Tree := Rose Label

namespace Tree

/-- A node without callee or body. -/
def plain (kind : Kind) (position : Position) (children : List Tree) : Tree :=
  .node { kind, position } children

def kind (tree : Tree) : Kind := tree.value.kind

def position (tree : Tree) : Position := tree.value.position

end Tree

end CallbackLint
