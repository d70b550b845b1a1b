import CallbackLint.Grammar.Class
import CallbackLint.Grammar.Markup

namespace CallbackLint

/-!
# Expressions

An expression is a chain of operands joined by operators that bind more or less
tightly.  An operand may have operators in front of it and behind it, and what
it starts from may be called, indexed or taken members of.
-/

/-! ## Operators -/

structure Operator where
  text : String
  /-- How tightly the operator binds. -/
  level : Nat
  /-- Whether a row of such operators is grouped from the right. -/
  fromRight : Bool := false
deriving DecidableEq, Repr

namespace Operator

/-- The operators written with signs; one that begins like another comes before
it. -/
def signs : List Operator :=
  [⟨">>>", 9, false⟩, ⟨"===", 7, false⟩, ⟨"!==", 7, false⟩, ⟨"**", 12, true⟩,
    ⟨"??", 1, false⟩, ⟨"||", 2, false⟩, ⟨"&&", 3, false⟩, ⟨"==", 7, false⟩,
    ⟨"!=", 7, false⟩, ⟨"<<", 9, false⟩, ⟨">>", 9, false⟩, ⟨"<=", 8, false⟩,
    ⟨">=", 8, false⟩, ⟨"<", 8, false⟩, ⟨">", 8, false⟩, ⟨"|", 4, false⟩,
    ⟨"^", 5, false⟩, ⟨"&", 6, false⟩, ⟨"+", 10, false⟩, ⟨"-", 10, false⟩,
    ⟨"*", 11, false⟩, ⟨"/", 11, false⟩, ⟨"%", 11, false⟩]

def words : List Operator := [⟨"instanceof", 8, false⟩, ⟨"in", 8, false⟩]

/-- The least level of an operator; a condition with `?` binds as tightly. -/
def least : Nat := 1

/-- The operators that, with `=` behind them, change a variable. -/
def changing : List String :=
  ["**", "??", "||", "&&", ">>>", "<<", ">>", "|", "^", "&", "+", "-", "*", "/", "%"]

/-- The sign that a text begins with, if it is an operator between operands. -/
def sign? (glyphs : List Glyph) : Option Operator :=
  match signs.find? fun operator => Blank.startsWith operator.text.toList glyphs with
  | none => none
  | some operator =>
    let next := (glyphs.drop operator.text.length).head?.map Glyph.char
    if changing.contains operator.text && next == some '=' then none
    else if operator.text = "+" && next == some '+' then none
    else if operator.text = "-" && next == some '-' then none
    else some operator

end Operator

namespace Reader

def upcomingOperator? : Reader (Option Operator) := do
  let glyphs ← upcoming .operator
  match Operator.sign? glyphs with
  | some operator => return some operator
  | none =>
    let count := Word.length (← get).limit glyphs
    let word := String.ofList ((glyphs.take count).map Glyph.char)
    return Operator.words.find? fun operator => operator.text == word

/-- Take an operator and make a nameless node of it. -/
def operatorNode (operator : Operator) : Reader Concrete := do
  settle .operator
  match (← get).rest with
  | [] => failure
  | glyph :: _ =>
    exactly operator.text.toList
    let .node label children ← node operator.text glyph.place []
    return .node { label with named := false, field := some "operator" } children

/-- Whether a text comes next in a place where an operator can stand. -/
def seesOperator (text : String) : Reader Bool := do
  return Blank.startsWith text.toList (← upcoming .operator)

/-- Whether the mark of a condition comes next: a question mark that is not
doubled and asks for no member. -/
def seesCondition : Reader Bool := do
  match (← upcoming .operator).map Glyph.char |>.take 3 with
  | '?' :: '?' :: _ => return false
  | ['?', '.', digit] => return digit.isDigit
  | '?' :: '.' :: _ => return false
  | '?' :: _ => return true
  | _ => return false

/-! ## Functions with an arrow -/

def seesArrow : Reader Bool := seesOperator "=>"

def arrowBody (grammar : Grammar) : Reader Concrete := do
  token .operator "=>"
  let body ← if ← sees "\x7b" then block grammar else grammar .expression
  return body.inRole "body"

/-- The rest of a function with an arrow behind a list in parentheses. -/
def arrowFrom (grammar : Grammar) (start opening : Place) (items : List Concrete) :
    Reader Concrete := do
  let inputs ← node "formal_parameters" opening (items.map Concrete.asPattern)
  let body ← arrowBody grammar
  node "arrow_function" start [inputs.inRole "parameters", body]

/-- A function with an arrow that may wait for others. -/
def asyncArrow (grammar : Grammar) : Reader Concrete := do
  let start ← here
  keyword "async"
  ensure !(← semicolonMayBeLeftOut true)
  if ← sees "(" then
    let opening ← here
    symbol "("
    let items ← occupied (element grammar)
    symbol ")"
    ensure (← seesArrow)
    arrowFrom grammar start opening items
  else
    let input ← nameNode "identifier"
    let body ← arrowBody grammar
    node "arrow_function" start [input.inRole "parameter", body]

/-- What stands in parentheses: the parameters of a function with an arrow, if
an arrow follows, and an expression else. -/
def parenthesizedOrArrow (grammar : Grammar) : Reader Concrete := do
  let start ← here
  symbol "("
  let items ← separated (element grammar)
  symbol ")"
  if ← seesArrow then
    arrowFrom grammar start start (items.filterMap id)
  else
    let present := items.filterMap id
    ensure (present.length = items.length &&
      present.all fun item => !item.isOneOf ["spread_element"])
    match present with
    | [inner] => node "parenthesized_expression" start [inner]
    | first :: _ =>
      let stop := (present.getLast?.map fun last => last.value.stop).getD 0
      let inner ← nodeUpTo "sequence_expression" first.place stop present
      node "parenthesized_expression" start [inner]
    | [] => failure

/-- A name, or the function with an arrow whose parameter it is. -/
def nameOrArrow (grammar : Grammar) : Reader Concrete := do
  let title ← identifier
  if ← seesArrow then
    let body ← arrowBody grammar
    node "arrow_function" title.place [title.inRole "parameter", body]
  else return title

/-! ## What an operand starts from -/

/-- The words that are expressions by themselves. -/
def selfStanding : List String := ["this", "super", "null", "true", "false"]

/-- A module that is loaded while the script runs, or what is known about the
present one. -/
def importExpression : Reader Concrete := do
  let start ← here
  let marker ← leaf "import" (keyword "import")
  if ← sees "." then
    symbol "."
    keyword "meta"
    node "meta_property" start []
  else
    ensure (← sees "(")
    return marker

def wordOperand (grammar : Grammar) (word : String) : Reader Concrete := do
  if word == "function" then function grammar .value
  else if word == "class" then classNode grammar .value
  else if word == "import" then importExpression
  else if selfStanding.contains word then wordNode word
  else if word == "async" then
    function grammar .value <|> asyncArrow grammar <|> nameOrArrow grammar
  else nameOrArrow grammar

/-- What an operand starts from. -/
def primary (grammar : Grammar) : Reader Concrete := do
  match ← peek? with
  | some '(' => parenthesizedOrArrow grammar
  | some '[' => array grammar
  | some '\x7b' => object grammar
  | some '\x60' => template grammar
  | some '\x22' | some '\x27' => string
  | some '/' => regex
  | some '<' => grammar .markup
  | some '@' => classNode grammar .value
  | some '#' => privateName
  | some char =>
    if char.isDigit || char == '.' then number
    else
      match ← peekWord? with
      | some word => wordOperand grammar word
      | none => failure
  | none => failure

/-! ## Members, calls and indices -/

def memberTail (object : Concrete) (before : List Concrete) : Reader Concrete := do
  let property ←
    match ← peek? with
    | some '#' => privateName
    | _ => wordNode "property_identifier"
  node "member_expression" object.place
    (object.inRole "object" :: before ++ [property.inRole "property"])

def indexTail (grammar : Grammar) (object : Concrete) (before : List Concrete) :
    Reader Concrete := do
  symbol "["
  let index ← sequence grammar
  symbol "]"
  node "subscript_expression" object.place
    (object.inRole "object" :: before ++ [index.inRole "index"])

def callTail (grammar : Grammar) (callee : Concrete) (before : List Concrete) :
    Reader Concrete := do
  let values ← arguments grammar
  node "call_expression" callee.place
    (callee.inRole "function" :: before ++ [values.inRole "arguments"])

def templateTail (grammar : Grammar) (callee : Concrete) : Reader Concrete := do
  let text ← template grammar
  node "call_expression" callee.place
    [callee.inRole "function", text.inRole "arguments"]

/-- What comes after the mark that asks whether there is an object at all. -/
def optionalTail (grammar : Grammar) (object : Concrete) : Reader Concrete := do
  settle .operator
  let mark ← leaf "optional_chain" (exactly ['?', '.'])
  let before := [mark.inRole "optional_chain"]
  match ← peek? with
  | some '(' => callTail grammar object before
  | some '[' => indexTail grammar object before
  | _ => memberTail object before

/-- One more member, index, call or template behind an operand; the callee of
`new` is not called. -/
def tail (grammar : Grammar) (mayCall : Bool) (object : Concrete) : Reader Concrete := do
  match (← upcoming .operator).map Glyph.char |>.take 3 with
  | '.' :: _ =>
    token .operator "."
    memberTail object []
  | ['?', '.', next] =>
    ensure !next.isDigit
    optionalTail grammar object
  | '[' :: _ => indexTail grammar object []
  | '(' :: _ =>
    ensure mayCall
    callTail grammar object []
  | '\x60' :: _ => templateTail grammar object
  | _ => failure

/-- A new object, or what is known about the call that makes one. -/
def newExpression (grammar : Grammar) : Reader Concrete := do
  let start ← here
  keyword "new"
  if ← sees "." then
    symbol "."
    keyword "target"
    node "meta_property" start []
  else
    let callee ← grammar .constructor
    let values ← if ← seesOperator "(" then maybe (arguments grammar) else pure none
    node "new_expression" start
      (callee.inRole "constructor" :: (values.map (Concrete.inRole "arguments")).toList)

def constructor (grammar : Grammar) : Reader Concrete := do
  if ← seesWord "new" then newExpression grammar
  else grow (tail grammar false) (← primary grammar)

/-- An operand with its members, indices and calls. -/
def chain (grammar : Grammar) : Reader Concrete := do
  let base ← if ← seesWord "new" then newExpression grammar else primary grammar
  grow (tail grammar true) base

/-! ## Operands -/

/-- What may be given a value. -/
def assignable : List String :=
  ["identifier", "undefined", "member_expression", "subscript_expression", "object", "array",
    "parenthesized_expression"]

/-- The value that is given to an operand, if one is. -/
def assignment (grammar : Grammar) (target : Concrete) : Reader Concrete := do
  ensure (target.isOneOf assignable)
  let glyphs := (← upcoming .operator).map Glyph.char |>.take 4
  match glyphs with
  | '=' :: next =>
    ensure (next.head? != some '=' && next.head? != some '>')
    token .operator "="
    let value ← grammar .expression
    node "assignment_expression" target.place
      [target.asPattern.inRole "left", value.inRole "right"]
  | _ =>
    match Operator.changing.find? fun text => (text ++ "=").toList.isPrefixOf glyphs with
    | none => failure
    | some text =>
      let sign ← operatorNode { text := text ++ "=", level := 0 }
      let value ← grammar .expression
      node "augmented_assignment_expression" target.place
        [target.inRole "left", sign, value.inRole "right"]

/-- A step up or down behind an operand, on the same line. -/
def stepBehind (operand : Concrete) : Reader Concrete := do
  ensure !(← semicolonMayBeLeftOut true)
  token .operator "++" <|> token .operator "--"
  node "update_expression" operand.place [operand.inRole "argument"]

/-- An operand with what stands behind it. -/
def suffixed (grammar : Grammar) : Reader Concrete := do
  let base ← chain grammar
  assignment grammar base <|> stepBehind base <|> pure base

/-- The operators in front of an operand that are words. -/
def frontWords : List String := ["typeof", "void", "delete"]

def unary (grammar : Grammar) (type : String) (operator : Reader Unit) : Reader Concrete := do
  let start ← here
  operator
  let inner ← grammar .operand
  node type start [inner.inRole "argument"]

/-- Whether an operand can begin here, or the expression before it ends. -/
def operandFollows : Reader Bool := do
  if ← semicolonMayBeLeftOut true then return false
  match ← peek? with
  | none => return false
  | some char =>
    if [')', ']', '\x7d', ',', ';', ':'].contains char then return false
    return !(← seesWord "in") && !(← seesWord "of")

/-- What a generator gives out. -/
def yieldExpression (grammar : Grammar) : Reader Concrete := do
  let start ← here
  keyword "yield"
  if ← operandFollows then
    let _ ← optional "*"
    let inner ← grammar .expression
    node "yield_expression" start [inner]
  else node "yield_expression" start []

/-- An operand with the operators in front of it and behind it. -/
def operand (grammar : Grammar) : Reader Concrete := do
  match (← upcoming .operand).map Glyph.char |>.take 2 with
  | '+' :: '+' :: _ => unary grammar "update_expression" (symbol "++")
  | '-' :: '-' :: _ => unary grammar "update_expression" (symbol "--")
  | '+' :: _ => unary grammar "unary_expression" (symbol "+")
  | '-' :: _ => unary grammar "unary_expression" (symbol "-")
  | '!' :: _ => unary grammar "unary_expression" (symbol "!")
  | '~' :: _ => unary grammar "unary_expression" (symbol "~")
  | _ =>
    match ← peekWord? with
    | some "await" => unary grammar "await_expression" (keyword "await")
    | some "yield" => yieldExpression grammar
    | some word =>
      if frontWords.contains word then unary grammar "unary_expression" (keyword word)
      else suffixed grammar
    | none => suffixed grammar

/-! ## Operations -/

def conditional (grammar : Grammar) (condition : Concrete) : Reader Concrete := do
  ensure (← seesCondition)
  token .operator "?"
  let consequence ← grammar .expression
  symbol ":"
  let alternative ← grammar .expression
  node "ternary_expression" condition.place
    [condition.inRole "condition", consequence.inRole "consequence",
      alternative.inRole "alternative"]

/-- One more operator and operand behind an operation. -/
def operationStep (grammar : Grammar) (level : Nat) (left : Concrete) : Reader Concrete := do
  match ← upcomingOperator? with
  | some operator =>
    ensure (level ≤ operator.level)
    let sign ← operatorNode operator
    let right ← grammar
      (.operation (if operator.fromRight then operator.level else operator.level + 1))
    node "binary_expression" left.place
      [left.inRole "left", sign, right.inRole "right"]
  | none =>
    ensure (level ≤ Operator.least)
    conditional grammar left

/-- An operation whose operators bind at least as tightly as a given level. -/
def operation (grammar : Grammar) (level : Nat) : Reader Concrete := do
  grow (operationStep grammar level) (← operand grammar)

/-- An expression without a comma at its outside. -/
def expression (grammar : Grammar) : Reader Concrete := operation grammar Operator.least

end Reader

end CallbackLint
