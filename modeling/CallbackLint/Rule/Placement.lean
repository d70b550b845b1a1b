import CallbackLint.Rule.Scope
import CallbackLint.Syntax.Store

namespace CallbackLint

/-!
# Where a call stands

A callback call must sit where the function around it is bound to stop right
afterwards.  Six placements guarantee that.  They are tried in a fixed order,
and the first that applies is the placement of the call:

1. outside every function;
2. directly below a `return`;
3. inside the expression body of an arrow function;
4. a statement of its own, right before a `return`;
5. the last operand of `&&` in a statement of its own;
6. the last statement of the body block of the function itself.

A call that has none of them is unguarded.  Branches that each end in a call
do not help: only the body block of the function counts for the last place.
-/

inductive Placement where
  | topLevel
  | returnOperand
  | implicitReturn
  | followedByReturn
  | guarded
  | functionTail
  | unguarded
deriving DecidableEq, Repr

inductive Verdict where
  | compliant
  | violating
deriving DecidableEq, Repr

def Verdict.name : Verdict → String
  | compliant => "compliant"
  | violating => "violating"

namespace Placement

def name : Placement → String
  | topLevel => "top_level"
  | returnOperand => "return_operand"
  | implicitReturn => "implicit_return"
  | followedByReturn => "followed_by_return"
  | guarded => "guarded"
  | functionTail => "function_tail"
  | unguarded => "unguarded"

/-- Only an unguarded call violates the rule. -/
def verdict : Placement → Verdict
  | unguarded => .violating
  | _ => .compliant

end Placement

namespace Store

/-- The parent of a node if it has one of the given kind. -/
def parentOfKind? (store : Store) (kind : Kind) (name : Nat) : Option Nat :=
  (store.parentOf? name).filter fun parent => store.kind? parent == some kind

/-- The expression statement that consists of a node and nothing else around it. -/
def statementOf? (store : Store) (name : Nat) : Option Nat :=
  store.parentOfKind? .expressionStatement name

/-- The list of statements that holds the statement of a node. -/
def statementListOf? (store : Store) (name : Nat) : Option Nat :=
  (store.statementOf? name).bind fun statement =>
    (store.parentOf? statement).filter fun parent =>
      ((store.kind? parent).map Kind.isStatementList).getD false

/-- The statement after the statement of a node, in the same list. -/
def followingStatement? (store : Store) (name : Nat) : Option Nat :=
  (store.statementListOf? name).bind fun _ =>
    (store.statementOf? name).bind store.nextSibling?

def bodyBlock? (store : Store) (function : Nat) : Option Nat :=
  (store.bodyOf? function).filter fun body => store.kind? body == some .block

/-- Whether `target` comes up among some ancestors, given nearest first, no
later than `bound` does. -/
def reachedWithin (target bound : Nat) : List Nat → Bool
  | [] => false
  | ancestor :: rest =>
    ancestor == target || (ancestor != bound && reachedWithin target bound rest)

/-- Whether a node lies in the expression body of a function: the function's
body is no block, and it is the node itself or an ancestor of the node that is
no higher than the function. -/
def inExpressionBody (store : Store) (function name : Nat) : Bool :=
  match store.bodyOf? function with
  | none => false
  | some body =>
    store.kind? body != some .block &&
      (name == body || reachedWithin body function (store.ancestors name))

/-- Whether a node is the last operand of `&&` in a statement of its own. -/
def isGuarded (store : Store) (name : Nat) : Bool :=
  match store.parentOfKind? .logicalAnd name with
  | none => false
  | some operation =>
    (store.childrenOf operation).getLast? == some name &&
      (store.parentOfKind? .expressionStatement operation).isSome

/-- Where a call stands, seen from the frame of the function around it.  A call with any of the
places is accepted, so the order of the tests only shows in what is noted. -/
def placementOf (store : Store) (frame? : Option Frame) (call : Nat) : Placement :=
  match frame? with
  | none => .topLevel
  | some frame =>
    if (store.parentOfKind? .returnStatement call).isSome then
      .returnOperand
    else if store.inExpressionBody frame.function call then
      .implicitReturn
    else if (store.followingStatement? call).bind store.kind? == some .returnStatement then
      .followedByReturn
    else if store.isGuarded call then
      .guarded
    else if (store.statementListOf? call).isSome &&
        store.statementListOf? call == store.bodyBlock? frame.function &&
        (store.followingStatement? call).isNone then
      .functionTail
    else
      .unguarded

end Store

end CallbackLint
