import CallbackLint.Grammar.Reader

namespace CallbackLint

/-!
# Words

A word is a name or a keyword.  Reserved words are never names.  The other
keywords are names wherever they are not asked for.
-/

namespace Word

/-- The words that are never names. -/
def reserved : List String :=
  ["break", "case", "catch", "class", "const", "continue", "debugger", "default", "delete",
    "do", "else", "export", "extends", "false", "finally", "for", "function", "if", "import",
    "in", "instanceof", "new", "null", "return", "super", "switch", "this", "throw", "true",
    "try", "typeof", "var", "void", "while", "with"]

/-- The text after an escaped character, given the text after the backslash. -/
def afterEscape? : List Glyph → Option (List Glyph)
  | [] => none
  | mark :: rest =>
    if mark.char != 'u' then none
    else
      let isHex (glyph : Glyph) : Bool := ScriptChar.isHexDigit glyph.char
      match rest with
      | [] => none
      | brace :: digits =>
        if brace.char = '\x7b' then
          match digits.dropWhile isHex with
          | close :: after => if close.char = '\x7d' then some after else none
          | [] => none
        else if (rest.take 4).length = 4 && (rest.take 4).all isHex then some (rest.drop 4)
        else none

/-- How many characters of a text go on with a name. -/
def partLength : Nat → List Glyph → Nat
  | 0, _ => 0
  | _ + 1, [] => 0
  | limit + 1, glyph :: rest =>
    if ScriptChar.isNamePart glyph.char then partLength limit rest + 1
    else if glyph.char = '\\' then
      match afterEscape? rest with
      | some after => partLength limit after + (rest.length + 1 - after.length)
      | none => 0
    else 0

/-- How many characters of a text make up a word. -/
def length (limit : Nat) (glyphs : List Glyph) : Nat :=
  match glyphs with
  | [] => 0
  | glyph :: _ => if glyph.char.isDigit then 0 else partLength limit glyphs

end Word

namespace Reader

def peekWord? : Reader (Option String) := do
  let glyphs ← upcoming .operand
  let count := Word.length (← get).limit glyphs
  if count = 0 then return none
  return some (String.ofList ((glyphs.take count).map Glyph.char))

def bareWord : Reader String := fun cursor =>
  let count := Word.length cursor.limit cursor.rest
  let taken := cursor.rest.take count
  match taken.getLast? with
  | none => none
  | some last =>
    some (String.ofList (taken.map Glyph.char),
      { cursor with rest := cursor.rest.drop count, stop := last.next.offset })

def anyWord : Reader String := do
  settle .operand
  bareWord

def keyword (word : String) : Reader Unit := do
  ensure ((← anyWord) == word)

def seesWord (word : String) : Reader Bool := do
  return (← peekWord?) == some word

def optionalWord (word : String) : Reader Bool := do
  if ← seesWord word then
    keyword word
    return true
  else return false

/-- Take a word that is not reserved. -/
def name : Reader String := do
  let word ← anyWord
  ensure (!Word.reserved.contains word)
  return word

def nameNode (type : String) : Reader Concrete := leaf type name

/-- A name that stands for a variable. -/
def identifier : Reader Concrete := do
  if ← seesWord "undefined" then leaf "undefined" anyWord else nameNode "identifier"

def wordNode (type : String) : Reader Concrete := leaf type anyWord

def privateName : Reader Concrete := leaf "private_property_identifier" do
  exactly ['#']
  bareWord

end Reader

end CallbackLint
