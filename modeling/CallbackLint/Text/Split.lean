namespace CallbackLint

/-!
# Taking texts apart

A text is cut at every occurrence of a separator, so that the separator joins
the pieces to the text again.  Lines may end in a line feed, in a carriage
return, or in both; a reader that does not care makes them all line feeds
first.

A text is also stripped of the blanks around it, and of the digits in front of
it.  Blank are the characters of the Unicode property `White_Space` and the
four separators U+001C to U+001F, which Unicode treats as blank in its
bidirectional classes.
-/

/-! ## Pieces -/

/-- The pieces of a text between the occurrences of a separator. -/
def piecesBetween (separator : Char) : List Char → List (List Char)
  | [] => [[]]
  | char :: rest =>
    if char = separator then [] :: piecesBetween separator rest
    else
      match piecesBetween separator rest with
      | [] => [[char]]
      | first :: others => (char :: first) :: others

theorem piecesBetween_ne_nil (separator : Char) (text : List Char) :
    piecesBetween separator text ≠ [] := by
  cases text with
  | nil => simp [piecesBetween]
  | cons char rest =>
    simp only [piecesBetween]
    split
    · simp
    · split <;> simp

/-- The separator joins the pieces to the text again. -/
theorem intercalate_piecesBetween (separator : Char) (text : List Char) :
    [separator].intercalate (piecesBetween separator text) = text := by
  induction text with
  | nil => rfl
  | cons char rest inductionHypothesis =>
    have nonempty := piecesBetween_ne_nil separator rest
    simp only [piecesBetween]
    cases pieces : piecesBetween separator rest with
    | nil => exact absurd pieces nonempty
    | cons first others =>
      rw [pieces] at inductionHypothesis
      by_cases same : char = separator
      · simp only [same, if_true]
        simpa [List.intercalate, List.intersperse] using inductionHypothesis
      · simp only [same, if_false]
        cases others with
        | nil => simpa [List.intercalate, List.intersperse] using inductionHypothesis
        | cons second more => simpa [List.intercalate, List.intersperse] using inductionHypothesis

/-- Cutting a text at a separator leaves the pieces on both sides of it. -/
theorem piecesBetween_append_separator (separator : Char) (front back : List Char) :
    piecesBetween separator (front ++ separator :: back) =
      piecesBetween separator front ++ piecesBetween separator back := by
  induction front with
  | nil => exact if_pos rfl
  | cons char rest inductionHypothesis =>
      rw [List.cons_append, piecesBetween, piecesBetween, inductionHypothesis]
      cases pieces : piecesBetween separator rest with
      | nil => exact absurd pieces (piecesBetween_ne_nil separator rest)
      | cons first others =>
          by_cases same : char = separator
          · rw [if_pos same, if_pos same]
            rfl
          · rw [if_neg same, if_neg same]
            rfl

/-- The same text with a line feed for every pair of a carriage return and a
line feed. -/
def joinLineEnds : List Char → List Char
  | [] => []
  | '\r' :: '\n' :: rest => '\n' :: joinLineEnds rest
  | char :: rest => char :: joinLineEnds rest

/-- The same text with a line feed at every line end. -/
def unifyLineEnds (text : List Char) : List Char :=
  (joinLineEnds text).map fun char => if char = '\r' then '\n' else char

/-! ## Blanks -/

/-- Whether a character is blank. -/
def isBlank (char : Char) : Bool :=
  let code := char.toNat
  (9 ≤ code && code ≤ 13) || (28 ≤ code && code ≤ 32) || code == 0x85 || code == 0xA0 ||
    code == 0x1680 || (0x2000 ≤ code && code ≤ 0x200A) || code == 0x2028 ||
    code == 0x2029 || code == 0x202F || code == 0x205F || code == 0x3000

/-- A text without the blank characters at its beginning and its end. -/
def trimBlanks (text : List Char) : List Char :=
  ((text.dropWhile isBlank).reverse.dropWhile isBlank).reverse

/-! ## Digits -/

/-- The digits of a class at the front of a text, without the underscores between
them, and what comes after them. -/
def groupedDigits (inClass : Char → Bool) : List Char → List Char × List Char
  | [] => ([], [])
  | [char] => if inClass char then ([char], []) else ([], [char])
  | char :: next :: rest =>
    if !inClass char then ([], char :: next :: rest)
    else if next = '_' && (rest.head?.map inClass).getD false then
      let found := groupedDigits inClass rest
      (char :: found.1, found.2)
    else
      let found := groupedDigits inClass (next :: rest)
      (char :: found.1, found.2)

/-- The value of a digit; the letters of either case follow on the nine. -/
def digitValue (char : Char) : Nat :=
  if char.isDigit then char.toNat - '0'.toNat
  else if char.isUpper then char.toNat - 'A'.toNat + 10
  else char.toNat - 'a'.toNat + 10

/-- The number that some digits stand for in a base. -/
def numberOf (base : Nat) (digits : List Char) : Nat :=
  digits.foldl (fun number char => number * base + digitValue char) 0

/-- Whether a character is a hexadecimal digit of either case. -/
def isHexadecimal (char : Char) : Bool :=
  char.isDigit || ('a' ≤ char && char ≤ 'f') || ('A' ≤ char && char ≤ 'F')

end CallbackLint
