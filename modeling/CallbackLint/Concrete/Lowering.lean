import CallbackLint.Concrete.Tree
import CallbackLint.Rule.Inspection
import CallbackLint.Text.Split

namespace CallbackLint

/-!
# From concrete trees to syntax trees

Lowering makes a syntax tree of a concrete one, from the bottom up.  Every
construct other than a comment becomes a node; but a wrapper that has no
meaning of its own (parentheses, the `else` of an `if`, the braces of a
`switch`) gives way to what it wraps.  The statements of a `case` are put into
a block.

The results for nodes whose parent is still to come are kept in a table under
the identities of the nodes.  A later node of the same identity replaces the
result of an earlier one, and a parent takes the results of its children out of
the table, the first child first.

A script is a source together with the concrete tree that a parser made of it.
How parsing goes about what it cannot read is up to the parser: it says whether
there was any, and the run notes it.  Whatever tree it made is lowered and
checked.
-/

namespace Lowering

/-! ## Constructs -/

def functionTypes : List String :=
  ["function_declaration", "function_expression", "function",
    "generator_function_declaration", "generator_function", "arrow_function",
    "method_definition"]

def loopTypes : List String :=
  ["for_statement", "for_in_statement", "for_of_statement", "while_statement",
    "do_statement"]

/-- The wrappers that have no meaning of their own. -/
def wrapperTypes : List String :=
  ["parenthesized_expression", "else_clause", "switch_body"]

def caseTypes : List String := ["switch_case", "switch_default"]

/-- The kind of a construct that is no wrapper, call, function or branch. -/
def plainKind (node : Concrete) : Kind :=
  let type := node.value.type
  if type = "binary_expression" && node.typeInRole? "operator" == some "&&" then .logicalAnd
  else if loopTypes.contains type then .loop
  else if type = "program" then .program
  else if type = "statement_block" then .block
  else if type = "expression_statement" then .expressionStatement
  else if type = "return_statement" then .returnStatement
  else if type = "if_statement" then .ifStatement
  else if type = "switch_statement" then .switchStatement
  else .other

/-- Whether a construct calls a function with a list of arguments, as opposed
to a template string. -/
def isCall (node : Concrete) : Bool :=
  node.value.type == "call_expression" &&
    node.typeInRole? "arguments" != some "template_string"

/-- The identifier that a call names, if its callee is an identifier.  This is not looked for
behind parentheses.  Bytes of the source that are no characters are dropped from it. -/
def calleeOf? (source : List UInt8) (node : Concrete) : Option String :=
  match node.childInRole? "function" with
  | none => none
  | some callee =>
    if callee.value.type = "identifier" then
      some (String.ofList (trimBlanks (Utf8.decodeDropping (callee.value.bytes source))))
    else none

/-! ## One node -/

/-- The children of a node with what became of them, each under its identity. -/
abbrev Lowered (α : Type := Tree) := List (Int × Option α)

/-- What the children became. -/
def present {α : Type} (lowered : Lowered α) : List α := lowered.filterMap Prod.snd

/-- The place among the present trees of the last child of an identity, after
`place` trees and with `found` as the answer so far. -/
def placeOf (identity : Int) (place : Nat) (found : Option Nat) : Lowered → Option Nat
  | [] => found
  | (child, some _) :: rest =>
    placeOf identity (place + 1) (if child = identity then some place else found) rest
  | (child, none) :: rest =>
    placeOf identity place (if child = identity then none else found) rest

def bodyPlace? (node : Concrete) (lowered : Lowered) : Option Nat :=
  (node.identityInRole? "body").bind fun identity => placeOf identity 0 none lowered

/-- The branch of a `switch`: its value, if it has one, and the block of its
statements, which begins where the first of them does. -/
def buildCase (node : Concrete) (lowered : Lowered) (position : Position) : Tree :=
  let value := node.identityInRole? "value"
  let values := lowered.filter fun child => value == some child.1
  let statements := present (lowered.filter fun child => value != some child.1)
  let start := (statements.head?.map Tree.position).getD position
  .plain .switchCase position
    (present values ++ [.plain .block start statements])

/-- The tree that a node becomes, from what its children became.  A wrapper gives way to what is in
it only if that is a single tree; around none or several of them it has to stay. -/
def build (source : List UInt8) (node : Concrete) (lowered : Lowered) : Tree :=
  let position := node.value.position source
  let type := node.value.type
  if wrapperTypes.contains type then
    match present lowered with
    | [inner] => inner
    | inner => .plain .other position inner
  else if isCall node then
    .node { kind := .call, position, callee := calleeOf? source node } (present lowered)
  else if functionTypes.contains type then
    .node { kind := .function, position, body := bodyPlace? node lowered } (present lowered)
  else if caseTypes.contains type then
    buildCase node lowered position
  else
    .plain (plainKind node) position (present lowered)

/-! ## The table of results -/

/-- Results under the identities of their nodes, each identity at most once. -/
abbrev Results (α : Type := Tree) := List (Int × α)

namespace Results

variable {α : Type}

/-- Put a result into the table, in the place of one of the same identity. -/
def put (results : Results α) (identity : Int) (result : α) : Results α :=
  (identity, result) :: results.filter fun entry => entry.1 != identity

def get? (results : Results α) (identity : Int) : Option α :=
  (results.find? fun entry => entry.1 == identity).map Prod.snd

/-- The table without the result of an identity. -/
def drop (results : Results α) (identity : Int) : Results α :=
  results.eraseP fun entry => entry.1 == identity

/-- Take the results of some identities out of the table, in order. -/
def takeAll (results : Results α) : List Int → Lowered α × Results α
  | [] => ([], results)
  | identity :: rest =>
    let taken := takeAll (results.drop identity) rest
    ((identity, results.get? identity) :: taken.1, taken.2)

end Results

/-! ## The whole tree -/

/-- What leaving a node does to the table: the node takes the results of its
children and puts in its own. -/
def settle (source : List UInt8) (results : Results) (node : Concrete) : Results :=
  let taken := results.takeAll (node.visibleChildren.map fun child => child.value.identity)
  taken.2.put node.value.identity (build source node taken.1)

def step (source : List UInt8) (results : Results) : Visit Concrete → Results
  | .enter _ => results
  | .leave node => settle source results node

def table (source : List UInt8) (root : Concrete) : Results :=
  root.visible.guide (step source) []

/-- The tree that the root becomes.  The root is left last of all nodes, so its result is in the
table in the end, whatever happened to the others. -/
def lower? (source : List UInt8) (root : Concrete) : Option Tree :=
  (table source root).get? root.value.identity

mutual

/-- Lowering by recursion on the tree.  The table does the same as long as no two nodes share an
identity; otherwise a result may be replaced before the parent takes it. -/
def lowerDirectly (source : List UInt8) : Concrete → Tree
  | .node label children =>
    build source (.node label children) (lowerAllDirectly source children)

def lowerAllDirectly (source : List UInt8) : List Concrete → Lowered
  | [] => []
  | .node label children :: rest =>
    if label.isVisible then
      (label.identity, some (lowerDirectly source (.node label children))) ::
        lowerAllDirectly source rest
    else lowerAllDirectly source rest

end

/-- A program around a tree, unless the tree is a program already. -/
def wrapProgram (position : Position) (tree : Tree) : Tree :=
  match tree.kind with
  | .program => tree
  | _ => .plain .program position [tree]

end Lowering

/-! ## Scripts -/

/-- A script as it was read.  Nothing is assumed about how the tree and the source belong together:
positions and callees are read from the source where the nodes say that they are. -/
structure Script where
  source : List UInt8
  root : Concrete
  /-- Whether some part of the source could not be read. -/
  malformed : Bool := false

namespace Script

/-- The syntax tree of a script, always with a program at its root. -/
def syntaxTree (script : Script) : Tree :=
  let position := script.root.value.position script.source
  let lowered := (Lowering.lower? script.source script.root).getD (.plain .program position [])
  Lowering.wrapProgram position lowered

def notes (script : Script) : List Note :=
  if script.malformed then [.malformed] else []

def check (script : Script) (names : List String) (path : Option String) : Findings :=
  let findings := script.syntaxTree.check names path
  { findings with notes := script.notes ++ findings.notes }

end Script

end CallbackLint
