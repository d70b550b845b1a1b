import CallbackLint.Concrete.Tree
import CallbackLint.Grammar.Blank

namespace CallbackLint

/-!
# Readers

A reader takes a construct off the front of the text, or fails and takes
nothing.  Each token absorbs the spaces and comments before it.

Constructs contain each other.  The readers for them are therefore written
against a `Grammar`, which supplies the reader of every construct that may
occur inside; `Grammar.ofDepth` ties the knot for a bounded depth of nesting.
-/

/-- How far a script has been read. -/
structure Cursor where
  /-- What is still to be read. -/
  rest : List Glyph
  /-- Where the last token ended. -/
  stop : Nat := 0
  /-- The identity of the next node. -/
  fresh : Int := 0
  /-- The asides that were skipped, last one first. -/
  asides : List Blank.Aside := []
  /-- A bound for every repetition; no text has more pieces than characters. -/
  limit : Nat

abbrev Reader := StateT Cursor Option

/-- The constructs that contain each other. -/
inductive Phrase where
  | statement
  /-- An expression without a comma at its outside. -/
  | expression
  /-- An operation whose operators bind at least as tightly as a given level. -/
  | operation (level : Nat)
  /-- An operand with the operators in front of it and behind it. -/
  | operand
  /-- The callee of `new`, without a list of arguments. -/
  | constructor
  /-- A markup element. -/
  | markup
deriving DecidableEq, Repr

/-- The readers of the constructs that may occur inside another one. -/
abbrev Grammar := Phrase → Reader Concrete

namespace Reader

variable {α : Type}

/-! ## Looking ahead -/

/-- What comes after spaces and comments, when an operator may stand there. -/
def upcoming (setting : Blank.Setting) : Reader (List Glyph) := fun cursor =>
  some ((Blank.skip setting cursor.limit cursor.rest).2, cursor)

def sees (text : String) : Reader Bool := do
  return Blank.startsWith text.toList (← upcoming .operand)

def peek? : Reader (Option Char) := do
  return (← upcoming .operand).head?.map Glyph.char

/-- The place of the next token, or of the end of the text. -/
def here : Reader Place := do
  match ← upcoming .operand with
  | glyph :: _ => return glyph.place
  | [] => failure

def ensure (condition : Bool) : Reader Unit := if condition then pure () else failure

/-! ## Tokens -/

/-- Skip spaces and comments for good. -/
def settle (setting : Blank.Setting) : Reader Unit := modify fun cursor =>
  let skipped := Blank.skip setting cursor.limit cursor.rest
  { cursor with rest := skipped.2, asides := skipped.1.reverse ++ cursor.asides }

/-- Take the next character, whatever it is. -/
def advance : Reader Char := fun cursor =>
  match cursor.rest with
  | [] => none
  | glyph :: rest => some (glyph.char, { cursor with rest, stop := glyph.next.offset })

/-- Take some characters as they are. -/
def exactly (text : List Char) : Reader Unit :=
  match text with
  | [] => pure ()
  | char :: rest => do
    ensure ((← advance) == char)
    exactly rest

/-- Take a token. -/
def token (setting : Blank.Setting) (text : String) : Reader Unit := do
  settle setting
  exactly text.toList

/-- Take a token in a place where no operator can stand. -/
def symbol (text : String) : Reader Unit := token .operand text

def takeWhile (inClass : Char → Bool) : Reader (List Char) := fun cursor =>
  let taken := cursor.rest.takeWhile fun glyph => inClass glyph.char
  let stop := (taken.getLast?.map fun glyph => glyph.next.offset).getD cursor.stop
  some (taken.map Glyph.char, { cursor with rest := cursor.rest.drop taken.length, stop })

/-! ## Choice and repetition -/

/-- Read something if it is there. -/
def maybe (reader : Reader α) : Reader (Option α) :=
  (some <$> reader) <|> pure none

/-- Read something as often as it is there, but at most `limit` times. -/
def manyUpTo (reader : Reader α) : Nat → Reader (List α)
  | 0 => pure []
  | limit + 1 => do
    match ← maybe reader with
    | some item => return item :: (← manyUpTo reader limit)
    | none => return []

def many (reader : Reader α) : Reader (List α) := do
  manyUpTo reader (← get).limit

/-- Let something grow as often as it can, but at most `limit` times. -/
def growUpTo (step : α → Reader α) : Nat → α → Reader α
  | 0, value => pure value
  | limit + 1, value => do
    match ← maybe (step value) with
    | some next => growUpTo step limit next
    | none => return value

def grow (step : α → Reader α) (value : α) : Reader α := do
  growUpTo step (← get).limit value

/-- Find out whether something is there and take nothing. -/
def lookahead (reader : Reader α) : Reader Bool := fun cursor =>
  some ((reader cursor).isSome, cursor)

def optional (text : String) : Reader Bool := do
  return (← maybe (symbol text)).isSome

/-! ## Nodes -/

/-- Make a node of the text from a place up to the last token. -/
def node (type : String) (start : Place) (children : List Concrete) : Reader Concrete :=
  modifyGet fun cursor =>
    let label : ConcreteLabel :=
      { type, identity := cursor.fresh, row := start.row, column := start.column,
        start := start.offset, stop := cursor.stop }
    (.node label children, { cursor with fresh := cursor.fresh + 1 })

def leaf (type : String) (reader : Reader α) : Reader Concrete := do
  settle .operand
  let start ← here
  let _ ← reader
  node type start []

/-! ## The end of a statement -/

/-- Whether the semicolon may be left out here. -/
def semicolonMayBeLeftOut (operatorMayFollow : Bool) : Reader Bool := fun cursor =>
  some (Semicolon.mayBeLeftOut operatorMayFollow cursor.limit cursor.limit cursor.rest, cursor)

/-- Read the end of a statement: a semicolon, or nothing where it may be left
out. -/
def statementEnd (operatorMayFollow : Bool) : Reader Unit := do
  unless ← semicolonMayBeLeftOut operatorMayFollow do
    symbol ";"

end Reader

namespace Concrete

def inRole (role : String) : Concrete → Concrete
  | .node label children => .node { label with field := some role } children

def place (tree : Concrete) : Place :=
  { offset := tree.value.start, row := tree.value.row, column := tree.value.column }

def isOneOf (types : List String) (tree : Concrete) : Bool := types.contains tree.value.type

end Concrete

end CallbackLint
