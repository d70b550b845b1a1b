import CallbackLint.Grammar.Word

namespace CallbackLint

/-!
# Literals

Numbers, strings and regular expressions.  A string is divided into the runs of
characters that stand for themselves and the escapes between them.
-/

namespace Reader

/-! ## Numbers -/

def someOf (inClass : Char → Bool) : Reader Unit := do
  let taken ← takeWhile inClass
  ensure !taken.isEmpty

def isDigitPart (char : Char) : Bool := char.isDigit || char == '_'

def exponent : Reader Unit := do
  let mark ← advance
  ensure (mark == 'e' || mark == 'E')
  let _ ← maybe do
    let sign ← advance
    ensure (sign == '+' || sign == '-')
  someOf isDigitPart

def basedNumber : Reader Unit := do
  exactly ['0']
  let base ← advance
  ensure ("xXoObB".toList.contains base)
  someOf fun char => ScriptChar.isHexDigit char || char == '_'

def decimalNumber : Reader Unit := do
  let whole ← takeWhile isDigitPart
  match ← maybe (exactly ['.']) with
  | none => ensure !whole.isEmpty
  | some () =>
    let fraction ← takeWhile isDigitPart
    ensure (!whole.isEmpty || !fraction.isEmpty)
  let _ ← maybe exponent

def number : Reader Concrete := leaf "number" do
  basedNumber <|> decimalNumber
  let _ ← maybe (exactly ['n'])

/-! ## Escapes -/

def escapeBody : Reader Unit := do
  let mark ← advance
  if mark == 'x' then
    for _ in [1, 2] do
      ensure (ScriptChar.isHexDigit (← advance))
  else if mark == 'u' then
    match ← maybe (exactly ['\x7b']) with
    | some () =>
      someOf ScriptChar.isHexDigit
      exactly ['\x7d']
    | none =>
      for _ in [1, 2, 3, 4] do
        ensure (ScriptChar.isHexDigit (← advance))
  else if '0' ≤ mark && mark ≤ '7' then
    for _ in [1, 2] do
      let _ ← maybe do
        let digit ← advance
        ensure ('0' ≤ digit && digit ≤ '7')
  else if mark == '\r' then
    let _ ← maybe do
      ensure (ScriptChar.isLineEnd (← advance))
  else pure ()

/-- Make a node of what a reader takes, without skipping anything before it. -/
def inside (type : String) (reader : Reader Unit) : Reader Concrete := do
  match (← get).rest with
  | [] => failure
  | glyph :: _ =>
    reader
    node type glyph.place []

def escape : Reader Concrete := inside "escape_sequence" do
  exactly ['\\']
  escapeBody

/-! ## Strings -/

/-- The characters that stand for themselves between some quotes. -/
def plainRun (quote : Char) : Reader Concrete := inside "string_fragment" do
  someOf fun char => char != quote && char != '\\' && char != '\n' && char != '\r'

def quotedString (quote : Char) : Reader Concrete := do
  settle .operand
  let start ← here
  exactly [quote]
  let parts ← many (plainRun quote <|> escape)
  exactly [quote]
  node "string" start parts

def string : Reader Concrete := quotedString '\x22' <|> quotedString '\x27'

/-! ## Regular expressions -/

/-- An escaped character of a regular expression. -/
def patternEscape : Reader Unit := do
  exactly ['\\']
  ensure ((← advance) != '\n')

def patternClassPart : Reader Unit :=
  patternEscape <|> do
    let char ← advance
    ensure (char != ']' && char != '\n' && char != '\\')

/-- A part of a regular expression: a class, an escaped character, or a
character that stands by itself. -/
def patternPart : Reader Unit :=
  patternEscape <|>
    (do
      exactly ['[']
      let _ ← many patternClassPart
      exactly [']']) <|>
    do
      let char ← advance
      ensure (char != '/' && char != '\\' && char != '[' && char != '\n')

def regex : Reader Concrete := do
  settle .operand
  let start ← here
  exactly ['/']
  let pattern ← inside "regex_pattern" do
    patternPart
    let _ ← many patternPart
  exactly ['/']
  let flags ← maybe (inside "regex_flags" (someOf fun char => 'a' ≤ char && char ≤ 'z'))
  node "regex" start
    (pattern.inRole "pattern" :: (flags.map (Concrete.inRole "flags")).toList)

end Reader

end CallbackLint
