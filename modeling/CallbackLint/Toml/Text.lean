import CallbackLint.Text.Split
import CallbackLint.Toml.Reader

namespace CallbackLint

/-!
# Texts in TOML

A text stands between quotes.  Between single quotes every character stands for
itself; between double quotes a backslash begins an escape.  Three quotes allow
line ends.  A line end right after them does not count, and up to two more quotes
right before the closing ones do.
-/

namespace Toml

namespace Reader

/-- Whether a character may stand in a text as it is. -/
def isTextChar (manyLines : Bool) (char : Char) : Bool :=
  isOrdinary char || (manyLines && char == '\n')

def codePoint (width : Nat) : Reader Char := do
  let digits := (← get).take width
  ensure (digits.length = width && digits.all isHexadecimal)
  modify fun rest => rest.drop width
  let code := numberOf 16 digits
  ensure (code < 0xD800 || (0xE000 ≤ code && code < 0x110000))
  return Char.ofNat code

/-- The rest of a line end that is escaped, and the blank lines after it. -/
def escapedLineEnd (first : Char) : Reader (List Char) := do
  if first != '\n' then
    skipBlanks
    match ← peek? with
    | none => pure ()
    | some next => ensure (next == '\n')
  let _ ← takeWhile fun char => isBlank char || char == '\n'
  return []

def escape (manyLines : Bool) : Reader (List Char) := do
  match ← advance with
  | 'b' => return ['\x08']
  | 't' => return ['\t']
  | 'n' => return ['\n']
  | 'f' => return ['\x0c']
  | 'r' => return ['\r']
  | '\x22' => return ['\x22']
  | '\\' => return ['\\']
  | 'u' => return [← codePoint 4]
  | 'U' => return [← codePoint 8]
  | char =>
    ensure (manyLines && (isBlank char || char == '\n'))
    escapedLineEnd char

/-- The rest of a text between double quotes, of at most `limit` characters. -/
def escapedUpTo (manyLines : Bool) : (limit : Nat) → Reader (List Char)
  | 0 => failure
  | limit + 1 => do
    if ← optional (if manyLines then "\x22\x22\x22" else "\x22") then return []
    match ← advance with
    | '\\' => return (← escape manyLines) ++ (← escapedUpTo manyLines limit)
    | char =>
      ensure (isTextChar manyLines char)
      return char :: (← escapedUpTo manyLines limit)

/-- The rest of a text between double quotes. -/
def escaped (manyLines : Bool) : Reader (List Char) := do
  escapedUpTo manyLines ((← get).length + 1)

/-- The rest of a text between single quotes, of at most `limit` characters. -/
def literalUpTo (manyLines : Bool) : (limit : Nat) → Reader (List Char)
  | 0 => failure
  | limit + 1 => do
    if ← optional (if manyLines then "\x27\x27\x27" else "\x27") then return []
    let char ← advance
    ensure (isTextChar manyLines char)
    return char :: (← literalUpTo manyLines limit)

/-- The rest of a text between single quotes. -/
def literal (manyLines : Bool) : Reader (List Char) := do
  literalUpTo manyLines ((← get).length + 1)

/-- Up to two more quotes that belong to a text of many lines. -/
def moreQuotes (quote : Char) : Reader (List Char) := do
  let more := (← get).take 2 |>.takeWhile fun char => char == quote
  modify fun rest => rest.drop more.length
  return more

def lineText : Reader String := do
  match ← advance with
  | '\x22' => return String.ofList (← escaped false)
  | '\x27' => return String.ofList (← literal false)
  | _ => failure

def linesText : Reader String := do
  if ← optional "\x22\x22\x22" then
    let _ ← optional "\n"
    let body ← escaped true
    return String.ofList (body ++ (← moreQuotes '\x22'))
  exactly "\x27\x27\x27"
  let _ ← optional "\n"
  let body ← literal true
  return String.ofList (body ++ (← moreQuotes '\x27'))

def text : Reader String := do
  if (← sees "\x22\x22\x22") || (← sees "\x27\x27\x27") then linesText else lineText

end Reader

end Toml

end CallbackLint
