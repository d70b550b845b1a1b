import CallbackLint.Grammar.Literal
import CallbackLint.Grammar.Pattern

namespace CallbackLint

/-!
# Lists, functions and templates

The constructs here occur both in expressions and in statements: lists of
arguments and of parameters, blocks, functions, names of members, decorators,
and template strings.
-/

namespace Reader

variable {α : Type}

/-! ## Lists -/

/-- Things separated by commas.  A place between commas may be empty, and so
may the one after the last comma. -/
def separated (item : Reader α) : Reader (List (Option α)) := do
  let first ← maybe item
  let others ← many do
    symbol ","
    maybe item
  return first :: others

/-- The things in a list, without the empty places. -/
def occupied (item : Reader α) : Reader (List α) := do
  return (← separated item).filterMap id

/-- Make a node of the text from a place up to another one. -/
def nodeUpTo (type : String) (start : Place) (stop : Nat) (children : List Concrete) :
    Reader Concrete := do
  let .node label children ← node type start children
  return .node { label with stop } children

/-- An expression, or several of them separated by commas. -/
def sequence (grammar : Grammar) : Reader Concrete := do
  let first ← grammar .expression
  let others ← many do
    symbol ","
    grammar .expression
  if others.isEmpty then return first
  node "sequence_expression" first.place (first :: others)

/-- An expression that stands for all values that it gives. -/
def spread (grammar : Grammar) : Reader Concrete := do
  let start ← here
  symbol "..."
  let inner ← grammar .expression
  node "spread_element" start [inner]

def element (grammar : Grammar) : Reader Concrete := do
  if ← sees "..." then spread grammar else grammar .expression

def arguments (grammar : Grammar) : Reader Concrete := do
  let start ← here
  symbol "("
  let items ← occupied (element grammar)
  symbol ")"
  node "arguments" start items

def parenthesized (grammar : Grammar) : Reader Concrete := do
  let start ← here
  symbol "("
  let inner ← sequence grammar
  symbol ")"
  node "parenthesized_expression" start [inner]

/-! ## Blocks and functions -/

def block (grammar : Grammar) : Reader Concrete := do
  let start ← here
  symbol "\x7b"
  let statements ← many (grammar .statement)
  symbol "\x7d"
  node "statement_block" start statements

def parameters (grammar : Grammar) : Reader Concrete := do
  let start ← here
  symbol "("
  let items ← occupied (element grammar)
  symbol ")"
  node "formal_parameters" start (items.map Concrete.asPattern)

def signatureAndBody (grammar : Grammar) : Reader (List Concrete) := do
  let inputs ← parameters grammar
  let body ← block grammar
  return [inputs.inRole "parameters", body.inRole "body"]

/-- Whether a function is a value or declares its name. -/
inductive Standing where
  | value
  | declaration
deriving DecidableEq, Repr

def functionType (standing : Standing) (isGenerator : Bool) : String :=
  match standing, isGenerator with
  | .value, false => "function_expression"
  | .value, true => "generator_function"
  | .declaration, false => "function_declaration"
  | .declaration, true => "generator_function_declaration"

/-- A function that is spelled with `function`; a declaration must have a name. -/
def function (grammar : Grammar) (standing : Standing) : Reader Concrete := do
  let start ← here
  if ← optionalWord "async" then
    ensure !(← semicolonMayBeLeftOut true)
  keyword "function"
  let isGenerator ← optional "*"
  let title ←
    match standing with
    | .declaration => some <$> nameNode "identifier"
    | .value => maybe (nameNode "identifier")
  let parts ← signatureAndBody grammar
  node (functionType standing isGenerator) start
    ((title.map (Concrete.inRole "name")).toList ++ parts)

/-! ## Names of members -/

/-- The name of a member, a property or a method. -/
def memberName (grammar : Grammar) : Reader Concrete := do
  match ← peek? with
  | some '[' =>
    let start ← here
    symbol "["
    let inner ← grammar .expression
    symbol "]"
    node "computed_property_name" start [inner]
  | some '#' => privateName
  | some '\x22' | some '\x27' => string
  | some char =>
    if char.isDigit || char == '.' then number else wordNode "property_identifier"
  | none => failure

/-- The characters before which a word is a name of its own, not a modifier of
the name that follows. -/
def endsName : List Char := ['(', ',', ':', '=', ';', '\x7d']

/-- Take one of some words if it modifies the name that follows.  In a class a
word may be a member of its own that a line end separates from the next. -/
def modifier (inClass : Bool) (words : List String) : Reader (Option String) := maybe do
  let word ← anyWord
  ensure (words.contains word)
  match ← peek? with
  | some char => ensure !endsName.contains char
  | none => failure
  if inClass then ensure !(← semicolonMayBeLeftOut false)
  return word

/-! ## Decorators -/

/-- What may follow the sign of a decorator. -/
def decoration (grammar : Grammar) : Reader Concrete := do
  if ← sees "(" then return ← parenthesized grammar
  let base ← nameNode "identifier"
  let path ← grow (fun object => do
    symbol "."
    let property ← wordNode "property_identifier"
    node "member_expression" object.place
      [object.inRole "object", property.inRole "property"]) base
  if ← sees "(" then
    let values ← arguments grammar
    node "call_expression" path.place [path.inRole "function", values.inRole "arguments"]
  else return path

def decorator (grammar : Grammar) : Reader Concrete := do
  let start ← here
  symbol "@"
  let inner ← decoration grammar
  node "decorator" start [inner]

/-! ## Template strings -/

/-- How many characters of a template stand for themselves. -/
def chunkLength : List Glyph → Nat
  | [] => 0
  | glyph :: rest =>
    if glyph.char = '\x60' || glyph.char = '\\' then 0
    else if Blank.startsWith ['$', '\x7b'] (glyph :: rest) then 0
    else chunkLength rest + 1

/-- The characters of a template that stand for themselves. -/
def chunk : Reader Concrete := inside "string_fragment" fun cursor =>
  let count := chunkLength cursor.rest
  match (cursor.rest.take count).getLast? with
  | none => none
  | some last => some ((), { cursor with rest := cursor.rest.drop count, stop := last.next.offset })

def substitution (grammar : Grammar) : Reader Concrete := do
  match (← get).rest with
  | [] => failure
  | glyph :: _ =>
    exactly ['$', '\x7b']
    let inner ← sequence grammar
    symbol "\x7d"
    node "template_substitution" glyph.place [inner]

def template (grammar : Grammar) : Reader Concrete := do
  settle .operator
  match (← get).rest with
  | [] => failure
  | glyph :: _ =>
    exactly ['\x60']
    let parts ← many (chunk <|> escape <|> substitution grammar)
    exactly ['\x60']
    node "template_string" glyph.place parts

end Reader

end CallbackLint
