import CallbackLint.Pattern.Bracket

namespace CallbackLint

/-!
# Shell patterns

In a shell pattern, `*` stands for any text, `?` for any character, and a set
in brackets for any of its characters, or for any other character if the set
begins with an exclamation mark.  A slash is a character like any other.

In a set, a hyphen between two characters stands for the range between them.
A range whose ends are in the wrong order is empty and takes its ends with it;
this may move an exclamation mark to the front of the set.
-/

namespace Glob

/-- What a part of a pattern stands for. -/
inductive Item where
  /-- Any text. -/
  | anyText
  /-- Any character. -/
  | anyChar
  | char (value : Char)
  /-- A character in one of some ranges, or in none of them. -/
  | set (negated : Bool) (ranges : List (Char × Char))
deriving DecidableEq, Repr

/-! ## Sets -/

/-- The pieces of the body of a set between the hyphens that make ranges.  A
hyphen makes one only if at least `least` characters are before it. -/
def pieces (least : Nat) : List Char → List (List Char)
  | [] => [[]]
  | char :: rest =>
    if char = '-' && least = 0 then [] :: pieces 2 rest
    else
      match pieces (least - 1) rest with
      | [] => [[char]]
      | first :: others => (char :: first) :: others

/-- The same pieces, where a hyphen at the very end makes no range. -/
def keepLastHyphen : List (List Char) → List (List Char)
  | [] => []
  | [first, []] => [first ++ ['-']]
  | piece :: rest => piece :: keepLastHyphen rest

/-- Join two pieces if the range between them is empty. -/
def joinEmptyRange (piece : List Char) : List (List Char) → List (List Char)
  | [] => [piece]
  | next :: rest =>
    match piece.getLast?, next.head? with
    | some low, some high =>
      if high < low then (piece.dropLast ++ next.tail) :: rest else piece :: next :: rest
    | _, _ => piece :: next :: rest

def rangeBetween? (pair : List Char × List Char) : Option (Char × Char) :=
  match pair.1.getLast?, pair.2.head? with
  | some low, some high => some (low, high)
  | _, _ => none

/-- The ranges of a set with the given pieces; single characters are ranges as
well. -/
def rangesOf (pieces : List (List Char)) : List (Char × Char) :=
  (pieces.flatten.map fun char => (char, char)) ++
    (pieces.zip pieces.tail).filterMap rangeBetween?

/-- What a set with a given body stands for. -/
def Item.ofBody (body : List Char) : Item :=
  let least := if body.head? = some '!' then 2 else 1
  match (keepLastHyphen (pieces least body)).foldr joinEmptyRange [] with
  | ['!'] :: [] => .anyChar
  | ('!' :: first) :: others => .set true (rangesOf (first :: others))
  | pieces => .set false (rangesOf pieces)

/-! ## Patterns -/

/-- The parts of a pattern. -/
def read : List Char → List Item
  | [] => []
  | '*' :: rest => .anyText :: read (rest.dropWhile fun char => char == '*')
  | '?' :: rest => .anyChar :: read rest
  | '[' :: rest =>
    match _found : Bracket.split? rest with
    | some (body, after) => .ofBody body :: read after
    | none => .char '[' :: read rest
  | char :: rest => .char char :: read rest
termination_by text => text.length
decreasing_by
  · have shorter := (List.dropWhile_suffix (l := rest) fun char => char == '*').length_le
    simp only [List.length_cons]
    omega
  · simp
  · have shorter := Bracket.length_of_split? _found
    simp only [List.length_cons]
    omega
  · simp
  · simp

/-- Whether a part of a pattern stands for a single character. -/
def Item.covers : Item → Char → Bool
  | anyText, _ => false
  | anyChar, _ => true
  | char value, other => value == other
  | set negated ranges, other =>
    ranges.any (fun range => decide (range.1 ≤ other ∧ other ≤ range.2)) != negated

/-- The ends of a text, longest first. -/
def endings : List Char → List (List Char)
  | [] => [[]]
  | char :: rest => (char :: rest) :: endings rest

/-- What may be left of a text after some parts of a pattern, if the texts
before them may leave any of the given ones, the longest of which comes
first. -/
def leftAfter : List Item → List (List Char) → List (List Char)
  | [], texts => texts
  | .anyText :: items, texts =>
    leftAfter items (match texts with
      | [] => []
      | longest :: _ => endings longest)
  | item :: items, texts =>
    leftAfter items (texts.filterMap fun
      | [] => none
      | char :: rest => if item.covers char then some rest else none)

/-- Whether a pattern stands for a text. -/
def fits (pattern text : String) : Bool :=
  (leftAfter (read pattern.toList) [text.toList]).any List.isEmpty

end Glob

end CallbackLint
