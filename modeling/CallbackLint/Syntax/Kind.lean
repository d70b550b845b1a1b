namespace CallbackLint

/-!
# Kinds of syntax node

The rule tells twelve kinds of node apart; whatever else a script contains is
`other`.  Each kind has a name, under which it is read and shown.
-/

/-- The kinds of syntax node that the rule tells apart. -/
inductive Kind where
  | program
  | function
  | block
  | expressionStatement
  | returnStatement
  | call
  | logicalAnd
  | ifStatement
  | switchStatement
  | switchCase
  | loop
  | other
deriving DecidableEq, Repr

namespace Kind

def name : Kind → String
  | program => "program"
  | function => "function"
  | block => "block"
  | expressionStatement => "expression_statement"
  | returnStatement => "return"
  | call => "call"
  | logicalAnd => "logical_and"
  | ifStatement => "if"
  | switchStatement => "switch"
  | switchCase => "case"
  | loop => "loop"
  | other => "other"

def all : List Kind :=
  [program, function, block, expressionStatement, returnStatement, call,
    logicalAnd, ifStatement, switchStatement, switchCase, loop, other]

def ofName? (text : String) : Option Kind :=
  all.find? fun kind => kind.name == text

/-- Whether the children of a node of this kind are a list of statements. -/
def isStatementList : Kind → Bool
  | program | block => true
  | _ => false

theorem mem_all (kind : Kind) : kind ∈ all := by
  cases kind <;> decide

/-- A kind is found again under its own name. -/
theorem ofName?_name (kind : Kind) : ofName? kind.name = some kind := by
  cases kind <;> decide

end Kind

end CallbackLint
