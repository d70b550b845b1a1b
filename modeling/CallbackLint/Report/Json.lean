namespace CallbackLint

/-!
# JSON documents

A JSON value is written over several lines, two spaces deeper for each level of
nesting, with one entry a line.  Empty lists and empty objects stay on one line.

In a string, quotes, backslashes and control characters are escaped, and
nothing else is.
-/

/-- A JSON value without fractions and truth values. -/
inductive Json where
  | null
  | integer (value : Int)
  | text (value : String)
  | list (items : List Json)
  | object (entries : List (String × Json))

namespace Json

/-! ## Strings -/

def hexDigit (value : Nat) : Char :=
  if value < 10 then Char.ofNat ('0'.toNat + value) else Char.ofNat ('a'.toNat + (value - 10))

def escape (char : Char) : List Char :=
  if char = '\x22' then ['\\', '\x22']
  else if char = '\\' then ['\\', '\\']
  else if char = '\x08' then ['\\', 'b']
  else if char = '\t' then ['\\', 't']
  else if char = '\n' then ['\\', 'n']
  else if char = '\x0c' then ['\\', 'f']
  else if char = '\r' then ['\\', 'r']
  else if char.toNat < 32 then
    ['\\', 'u', '0', '0', hexDigit (char.toNat / 16), hexDigit (char.toNat % 16)]
  else [char]

def quote (text : List Char) : List Char :=
  '\x22' :: (text.flatMap escape ++ ['\x22'])

/-! ## Values -/

/-- The beginning of a line at some depth of nesting. -/
def margin (depth : Nat) : List Char := '\n' :: List.replicate (2 * depth) ' '

mutual

/-- How a value is written at some depth of nesting. -/
def write (depth : Nat) : Json → List Char
  | null => "null".toList
  | integer value => (toString value).toList
  | text value => quote value.toList
  | list [] => ['[', ']']
  | list (item :: rest) =>
    '[' :: (margin (depth + 1) ++ write (depth + 1) item ++ writeItems (depth + 1) rest ++
      margin depth ++ [']'])
  | object [] => ['\x7b', '\x7d']
  | object ((key, value) :: rest) =>
    '\x7b' :: (margin (depth + 1) ++ quote key.toList ++ [':', ' '] ++
      write (depth + 1) value ++ writeEntries (depth + 1) rest ++ margin depth ++ ['\x7d'])

def writeItems (depth : Nat) : List Json → List Char
  | [] => []
  | item :: rest => ',' :: (margin depth ++ write depth item ++ writeItems depth rest)

def writeEntries (depth : Nat) : List (String × Json) → List Char
  | [] => []
  | (key, value) :: rest =>
    ',' :: (margin depth ++ quote key.toList ++ [':', ' '] ++ write depth value ++
      writeEntries depth rest)

end

end Json

end CallbackLint
