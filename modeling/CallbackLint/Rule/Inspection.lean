import CallbackLint.Journal

namespace CallbackLint

/-!
# Running the rule over a tree

An inspection is the state of the rule during a traversal: the names it looks
for, the functions around the present point, and what it has found.  It may be
taken through several trees one after the other; what it found stays with it.

Names are matched exactly, as a set: their order and repetition do not matter.

What is found is a list of diagnostics.  A diagnostic is a plain record, which
may also be read from outside and shown again, so its line and column are
unbounded integers and its texts are arbitrary.
-/

/-! ## Diagnostics -/

structure Diagnostic where
  rule : String
  message : String
  line : Int
  column : Int
  nodeType : String
  /-- The file that the line and column refer to, if the source has a name. -/
  path : Option String := none
deriving DecidableEq, Repr

namespace Diagnostic

/-- Where a diagnostic points: `path:line:column`, or `line:column` in a source without a name.
Integers are written out however long they are.  A limit on the number of their digits, as a
runtime may have it, is left out. -/
def location (diagnostic : Diagnostic) : String :=
  let place := s!"{diagnostic.line}:{diagnostic.column}"
  match diagnostic.path with
  | some path => path ++ ":" ++ place
  | none => place

end Diagnostic

/-! ## Inspections -/

/-- The state of the rule during a traversal. -/
structure Inspection where
  /-- The identifiers whose calls are checked. -/
  names : List String
  /-- The path that diagnostics carry. -/
  path : Option String := none
  /-- The functions around the present point. -/
  scopes : Scopes := {}
  /-- What has been reported, oldest first. -/
  diagnostics : List Diagnostic := []
  /-- What has been noted, oldest first. -/
  notes : List Note := []

def ruleName : String := "callback-return"

def Diagnostic.missingReturn (path : Option String) (position : Position) : Diagnostic :=
  { rule := ruleName
    message := "Expected return with your callback function."
    line := position.line
    column := position.column
    nodeType := "CallExpression"
    path }

namespace Inspection

/-- Whether calls of an identifier are checked; a call without one never is. -/
def matchesCallee (names : List String) : Option String → Bool
  | none => false
  | some callee => names.contains callee

/-- Look at a call: note where it stands, and report it if it is unguarded. -/
def inspectCall (store : Store) (inspection : Inspection) (name : Nat) (node : Node)
    (callee : String) : Inspection :=
  let placement := store.placementOf inspection.scopes.current? name
  let noted := { inspection with
    notes := inspection.notes ++ [.classified callee node.position placement] }
  match placement.verdict with
  | .compliant => noted
  | .violating =>
    { noted with
      diagnostics := noted.diagnostics ++
        [.missingReturn inspection.path node.position] }

/-- What entering a node does: a function gets a frame, and a call of one of
the names is looked at. -/
def enter (store : Store) (inspection : Inspection) (name : Nat) : Inspection :=
  match store.node? name with
  | none => inspection
  | some node =>
    match node.kind, node.callee with
    | .function, _ => { inspection with scopes := inspection.scopes.enter name }
    | .call, some callee =>
      if matchesCallee inspection.names (some callee) then
        inspectCall store inspection name node callee
      else inspection
    | _, _ => inspection

/-- What leaving a node does: a function loses its frame. -/
def leave (store : Store) (inspection : Inspection) (name : Nat) : Inspection :=
  match store.kind? name with
  | some .function => { inspection with scopes := inspection.scopes.leave }
  | _ => inspection

def step (store : Store) (inspection : Inspection) : Visit Nat → Inspection
  | .enter name => inspection.enter store name
  | .leave name => inspection.leave store name

def run (store : Store) (inspection : Inspection) (root : Nat) : Inspection :=
  (store.outline root).guide (step store) inspection

end Inspection

/-- What a check finds, and what it notes on the way. -/
structure Findings where
  diagnostics : List Diagnostic := []
  notes : List Note := []
deriving DecidableEq, Repr

namespace Store

def check (store : Store) (names : List String) (path : Option String) (root : Nat) : Findings :=
  let inspection := Inspection.run store { names, path } root
  { diagnostics := inspection.diagnostics, notes := inspection.notes }

end Store

/-- Check a syntax tree with a fresh inspection. -/
def Tree.check (tree : Tree) (names : List String) (path : Option String) : Findings :=
  (Store.ofTree tree).check names path 0

end CallbackLint
