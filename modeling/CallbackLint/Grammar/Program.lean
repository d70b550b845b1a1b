import CallbackLint.Concrete.Lowering
import CallbackLint.Grammar.Statement

namespace CallbackLint

/-!
# Whole scripts

A script is a list of statements, possibly after a line that names the program
to run it.  `Script.parse` reads a source.  Reading fails as a whole or not at
all: a script that is not well formed has a single node without children, an
error, and nothing in it is found.

Other parsers go on behind an error and keep what they could read.  One of them
may be handed to a check in the place of this one, and what is proved about
checking files holds for it as well.
-/

namespace Grammar

/-- The readers of constructs that contain at most `depth` others inside each
other. -/
def ofDepth : Nat → Grammar
  | 0 => fun _ => failure
  | depth + 1 => fun phrase =>
    let inner := ofDepth depth
    match phrase with
    | .statement => Reader.statement inner
    | .expression => Reader.expression inner
    | .operation level => Reader.operation inner level
    | .operand => Reader.operand inner
    | .constructor => Reader.constructor inner
    | .markup => Reader.markup inner

end Grammar

namespace Concrete

mutual

/-- Put an aside into a tree, below the innermost node that reaches beyond it on
both sides. -/
def insertAside (aside : Concrete) : Concrete → Concrete
  | .node label children => .node label (insertAmong aside children)

/-- Put an aside among some nodes that come one after the other. -/
def insertAmong (aside : Concrete) : List Concrete → List Concrete
  | [] => [aside]
  | child :: rest =>
    if aside.value.start ≤ child.value.start then aside :: child :: rest
    else if aside.value.stop ≤ child.value.stop then insertAside aside child :: rest
    else child :: insertAmong aside rest

end

end Concrete

namespace Reader

/-- The first line of a script, if it names the program to run it. -/
def interpreterLine : Reader Concrete := leaf "hash_bang_line" do
  exactly ['#', '!']
  takeWhile fun char => char != '\n'

def textEnd : Reader Unit := do
  settle .operand
  ensure (← get).rest.isEmpty

def program (grammar : Grammar) : Reader (List Concrete) := do
  let first ← maybe interpreterLine
  let statements ← many (grammar .statement)
  textEnd
  return first.toList ++ statements

end Reader

namespace Script

def contentPlace (place : Place) : List Glyph → Place
  | [] => place
  | glyph :: rest =>
    if ScriptChar.isSpace glyph.char then contentPlace glyph.next rest else glyph.place

def rootLabel (type : String) (start : Place) (stop : Nat) : ConcreteLabel :=
  { type, identity := -1, row := start.row, column := start.column, start := start.offset, stop }

/-- The node for an aside; the asides of a script are numbered. -/
def asideNode (aside : Blank.Aside) (number : Nat) : Concrete :=
  .node
    { type := "html_comment", identity := -2 - (number : Int), row := aside.place.row,
      column := aside.place.column, start := aside.place.offset, stop := aside.stop } []

/-- Read a script.  The depth is such that a source of that size should not run out of it.  If the
readers do not get to the end, then nothing that they made is kept. -/
def parse (source : List UInt8) : Script :=
  let glyphs := Glyph.ofBytes source
  let start := contentPlace {} glyphs
  let size := glyphs.length
  let cursor : Cursor := { rest := glyphs, limit := size + 1 }
  match Reader.program (Grammar.ofDepth (2 * size + 8)) cursor with
  | some (children, finished) =>
    let root : Concrete := .node (rootLabel "program" start source.length) children
    let asides := finished.asides.reverse.zipIdx.map fun aside => asideNode aside.1 aside.2
    { source, root := asides.foldl (fun tree aside => Concrete.insertAside aside tree) root }
  | none =>
    { source, root := .node (rootLabel "ERROR" start source.length) [], malformed := true }

end Script

end CallbackLint
