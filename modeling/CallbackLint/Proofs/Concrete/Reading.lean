import CallbackLint.Concrete.Lowering
import CallbackLint.Proofs.Rose.Places
import Mathlib.Tactic.SplitIfs

namespace CallbackLint

open Rose

/-!
# The rule, said of the concrete tree

The nodes that lowering visits form a tree, in which the value of a `case` is
read before its statements.  Some of them are collapsed: a wrapper around a
single node gives way to that node.  A node that is not collapsed is a level for
what is below it.

Seen from a call, each level above it has a child on the way, which may be a
collapsed node around the way, and children after that.  The rule is said in these
terms, with nothing of syntax trees and stores in it.
-/

namespace Concrete

/-! ## Collapsed nodes -/

/-- A wrapper around a single node gives way to that node. -/
def isCollapsed (node : Concrete) : Bool :=
  Lowering.wrapperTypes.contains node.value.type && node.visibleChildren.length == 1

mutual

/-- What remains of a node after a descent through collapsed nodes. -/
def strip : Concrete → Concrete
  | .node label children =>
    match Lowering.wrapperTypes.contains label.type, stripAll children with
    | true, [inner] => inner
    | _, _ => .node label children

def stripAll : List Concrete → List Concrete
  | [] => []
  | .node label children :: rest =>
    if label.isVisible then strip (.node label children) :: stripAll rest else stripAll rest

end

/-! ## Reading order -/

/-- A node is the first child of another one in some role; nodes are told apart by
their identities. -/
def isInRole (parent : Concrete) (role : String) (child : Concrete) : Bool :=
  parent.identityInRole? role == some child.value.identity

def isCase (node : Concrete) : Bool := Lowering.caseTypes.contains node.value.type

/-- The nodes below a `case` with its value first. -/
def valueFirst (parent : Concrete) (below : List (Rose Concrete)) : List (Rose Concrete) :=
  if parent.isCase then
    below.filter (fun tree => parent.isInRole "value" tree.value) ++
      below.filter (fun tree => !parent.isInRole "value" tree.value)
  else below

mutual

/-- The nodes that lowering visits, in the order in which they are checked. -/
def reading : Concrete → Rose Concrete
  | .node label children =>
    .node (.node label children) (valueFirst (.node label children) (readingAll children))

def readingAll : List Concrete → List (Rose Concrete)
  | [] => []
  | .node label children :: rest =>
    if label.isVisible then reading (.node label children) :: readingAll rest
    else readingAll rest

end

/-! ## Levels -/

/-- A node above a place that is not collapsed, with what the conditions of the rule look at from
there.  Collapsed nodes are no levels: what is above them counts as right above the place. -/
structure Level where
  node : Concrete
  /-- The child on the way to the place. -/
  top : Concrete
  /-- The children that are read after that one. -/
  after : List Concrete

/-- The levels above a node, nearest first. -/
def levels (child : Concrete) : Context Concrete → List Level
  | [] => []
  | crumb :: context =>
    if crumb.value.isCollapsed then levels crumb.value context
    else
      { node := crumb.value, top := child, after := crumb.after.map Rose.value } ::
        levels crumb.value context

namespace Level

def isFunction (level : Level) : Bool :=
  Lowering.functionTypes.contains level.node.value.type

/-- The child on the way is one of a list of statements. -/
def IsStatementList (level : Level) : Prop :=
  level.node.value.type = "program" ∨ level.node.value.type = "statement_block" ∨
    level.node.isCase = true ∧ level.node.isInRole "value" level.top = false

/-! ## The accepted places -/

/-- The nearest level is a `return`. -/
def IsReturnOperand (levels : List Level) : Prop :=
  ∃ parent rest, levels = parent :: rest ∧ parent.node.value.type = "return_statement"

/-- The way leads through the body of the function, and that is no block. -/
def IsInExpressionBody (function : Level) : Prop :=
  function.node.isInRole "body" function.top = true ∧
    function.top.strip.value.type ≠ "statement_block"

/-- The nearest level is a statement in a list, and the next one there is a
`return`. -/
def IsFollowedByReturn (levels : List Level) : Prop :=
  ∃ statement list rest next later, levels = statement :: list :: rest ∧
    statement.node.value.type = "expression_statement" ∧ list.IsStatementList ∧
    list.after = next :: later ∧ next.strip.value.type = "return_statement"

/-- The nearest level is an `&&` that is a statement, and the way leads through its
last operand. -/
def IsGuardedOperand (levels : List Level) : Prop :=
  ∃ operation statement rest, levels = operation :: statement :: rest ∧
    operation.node.value.type = "binary_expression" ∧
    operation.node.typeInRole? "operator" = some "&&" ∧ operation.after = [] ∧
    statement.node.value.type = "expression_statement"

/-- The nearest level is the last statement of a block, and that is the body of the
function. -/
def IsFunctionTail (levels : List Level) (function : Level) : Prop :=
  ∃ statement block rest, levels = statement :: block :: function :: rest ∧
    statement.node.value.type = "expression_statement" ∧
    block.node.value.type = "statement_block" ∧ block.after = [] ∧
    function.node.isInRole "body" function.top = true

/-- The function is bound to stop right after the place. -/
def IsAccepted (levels : List Level) (function : Level) : Prop :=
  IsReturnOperand levels ∨ IsInExpressionBody function ∨ IsFollowedByReturn levels ∨
    IsGuardedOperand levels ∨ IsFunctionTail levels function

end Level

/-- A node calls an identifier of one of the names.  The identifier is the callee itself and stands
in no parentheses, which a reader of a script might not expect. -/
structure CallsOneOf (source : List UInt8) (names : List String) (node : Concrete) : Prop where
  isCall : node.value.type = "call_expression"
  /-- What it passes is no template string. -/
  arguments : node.typeInRole? "arguments" ≠ some "template_string"
  /-- The identifier is compared without the blanks around it. -/
  callee : ∃ callee, node.childInRole? "function" = some callee ∧
    callee.value.type = "identifier" ∧
    String.ofList (trimBlanks (Utf8.decodeDropping (callee.value.bytes source))) ∈ names

/-- At a place there is a call of one of the names, in a function, where the nearest
function need not stop right afterwards. -/
def Violates (source : List UInt8) (names : List String) (place : Focus Concrete) : Prop :=
  CallsOneOf source names place.2.value ∧
    ∃ function, (levels place.2.value place.1).find? Level.isFunction = some function ∧
      ¬ Level.IsAccepted (levels place.2.value place.1) function

end Concrete

end CallbackLint
