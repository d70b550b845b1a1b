import CallbackLint.Grammar.Glyph

namespace CallbackLint

/-!
# Between the tokens

Tokens may be separated by spaces and comments.  A comment runs from `//` to
the end of the line, or from `/*` to `*/`.

Where no operator can stand, `<!--` and `-->` also begin a comment that runs to
the end of the line.  Comments of this sort, here called asides, stay in the
concrete tree as nodes of their own.
-/

namespace Blank

/-- The text after a comment that runs to the end of the line. -/
def afterLine : List Glyph → List Glyph
  | [] => []
  | glyph :: rest => if ScriptChar.isCommentEnd glyph.char then glyph :: rest else afterLine rest

/-- The text after a comment that runs to `*/`, if it does end. -/
def afterBlock? : List Glyph → Option (List Glyph)
  | [] => none
  | [_] => none
  | first :: second :: rest =>
    if first.char = '*' && second.char = '/' then some rest
    else afterBlock? (second :: rest)

/-- The text after an aside, and the place where it ends. -/
def afterAside (stop : Nat) : List Glyph → Nat × List Glyph
  | [] => (stop, [])
  | glyph :: rest =>
    if ScriptChar.isLineEnd glyph.char then (stop, glyph :: rest)
    else afterAside glyph.next.offset rest

def startsWith : List Char → List Glyph → Bool
  | [], _ => true
  | _ :: _, [] => false
  | char :: rest, glyph :: glyphs => char == glyph.char && startsWith rest glyphs

/-- Where an aside begins and ends. -/
structure Aside where
  place : Place
  stop : Nat
deriving DecidableEq, Repr

/-- Whether asides may begin here, or are operators. -/
inductive Setting where
  | operand
  | operator
deriving DecidableEq, Repr

/-- Skip spaces and comments, at most `limit` pieces of them. -/
def skip (setting : Setting) : Nat → List Glyph → List Aside × List Glyph
  | 0, glyphs => ([], glyphs)
  | _ + 1, [] => ([], [])
  | limit + 1, glyph :: rest =>
    if ScriptChar.isSpace glyph.char then skip setting limit rest
    else if startsWith ['/', '/'] (glyph :: rest) then skip setting limit (afterLine rest)
    else if startsWith ['/', '*'] (glyph :: rest) then
      match afterBlock? (rest.drop 1) with
      | some after => skip setting limit after
      | none => ([], glyph :: rest)
    else if setting == .operand && (startsWith ['<', '!', '-', '-'] (glyph :: rest) ||
        startsWith ['-', '-', '>'] (glyph :: rest)) then
      let ended := afterAside glyph.place.offset (glyph :: rest)
      let skipped := skip setting limit ended.2
      ({ place := glyph.place, stop := ended.1 } :: skipped.1, skipped.2)
    else ([], glyph :: rest)

end Blank

/-!
## The end of a statement

A statement may end without a semicolon: before a closing brace, at the end of
the script, and at the end of a line, unless the next line begins like the
continuation of an expression.  `semicolonMayBeLeftOut` decides that.

The decision looks through comments.  A comment that ends the line settles it
only where no operator can follow; elsewhere the decision is made again behind
the comment.
-/

namespace Semicolon

/-- What was found when skipping spaces and comments. -/
inductive Found where
  /-- A slash that begins no comment. -/
  | slash
  | lineBreak
  | sameLine
deriving DecidableEq, Repr

/-- The text after a block comment, and whether the comment has several lines.
A comment that does not end takes the whole text. -/
def afterBlock (broken : Bool) : List Glyph → Option (List Glyph) × Bool
  | [] => (none, broken)
  | [glyph] => (none, broken || ScriptChar.isLineEnd glyph.char)
  | first :: second :: rest =>
    if first.char = '*' && second.char = '/' then (some rest, broken)
    else afterBlock (broken || ScriptChar.isLineEnd first.char) (second :: rest)

/-- The text after a comment that runs to the end of the line. -/
def afterLine : List Glyph → List Glyph
  | [] => []
  | glyph :: rest => if ScriptChar.isLineEnd glyph.char then glyph :: rest else afterLine rest

/-- Skip spaces and comments, at most `limit` pieces of them; `greedy` tells
whether to go on behind a block comment. -/
def skip (greedy : Bool) (broken : Bool) : Nat → List Glyph → Found × List Glyph
  | 0, glyphs => (.lineBreak, glyphs)
  | limit + 1, glyphs =>
    let glyphs := glyphs.dropWhile fun glyph => ScriptChar.isBreakingSpace glyph.char
    if Blank.startsWith ['/', '/'] glyphs then
      skip greedy broken limit (afterLine (glyphs.drop 2))
    else if Blank.startsWith ['/', '*'] glyphs then
      match afterBlock broken (glyphs.drop 2) with
      | (none, _) => (.lineBreak, [])
      | (some rest, broken) =>
        if greedy || Blank.startsWith ['/'] rest then skip greedy broken limit rest
        else (if broken then .lineBreak else .sameLine, rest)
    else if Blank.startsWith ['/'] glyphs then (.slash, glyphs)
    else (.lineBreak, glyphs)

/-- The characters that continue an expression at the beginning of a line. -/
def continuing : List Char :=
  ['\x60', ',', ':', ';', '*', '%', '>', '<', '=', '[', '(', '?', '^', '|', '&', '/']

/-- Whether a character goes on with a word like a letter. -/
def isLetter (char : Char) : Bool :=
  char.isAlpha || (128 ≤ char.toNat && ScriptChar.isNamePart char)

/-- Whether a word that begins with `in` is the operator `in` or `instanceof`. -/
def isWordOperator (afterIn : List Char) : Bool :=
  match afterIn with
  | [] => true
  | char :: _ =>
    if !isLetter char then true
    else if afterIn.take 8 != "stanceof".toList then false
    else !((afterIn.drop 8).head?.map isLetter).getD false

/-- Whether a line that begins with some characters continues the statement
before it. -/
def continues : List Char → Bool
  | [] => false
  | '.' :: rest => !(rest.head?.map Char.isDigit).getD false
  | '+' :: rest => rest.head? != some '+'
  | '-' :: rest => rest.head? != some '-'
  | '!' :: rest => rest.head? == some '='
  | 'i' :: 'n' :: rest => isWordOperator rest
  | char :: _ => continuing.contains char

/-- Whether a line begins with a new statement. -/
def startsAfresh (limit : Nat) (line : List Glyph) : Bool :=
  match skip true false limit line with
  | (.slash, _) => false
  | (_, rest) => !continues ((rest.take 12).map Glyph.char)

/-- Whether a statement ends before some text, as far as can be told without
reading a comment as a comment. -/
def endsBefore (operatorMayFollow : Bool) (limit : Nat) : List Glyph → Bool
  | [] => true
  | glyph :: rest =>
    if glyph.char = '/' then
      match skip false false limit (glyph :: rest) with
      | (.slash, _) => false
      | (_, []) => true
      | (found, next :: behind) =>
        if found == .lineBreak && !operatorMayFollow && next.char != ',' && next.char != '=' then
          true
        else if next.char = '\x7d' then true
        else if ScriptChar.isLineEnd next.char then startsAfresh limit behind
        else false
    else if glyph.char = '\x7d' then true
    else if ScriptChar.isLineEnd glyph.char then startsAfresh limit rest
    else if ScriptChar.isBreakingSpace glyph.char then endsBefore operatorMayFollow limit rest
    else false

/-- The text after the next comment, if nothing but space is before it. -/
def afterComment? : List Glyph → Option (List Glyph)
  | [] => none
  | glyph :: rest =>
    if ScriptChar.isSpace glyph.char then afterComment? rest
    else if Blank.startsWith ['/', '/'] (glyph :: rest) then some (Blank.afterLine rest)
    else if Blank.startsWith ['/', '*'] (glyph :: rest) then Blank.afterBlock? (rest.drop 1)
    else none

/-- Whether the semicolon before some text may be left out. -/
def mayBeLeftOut (operatorMayFollow : Bool) (limit : Nat) : Nat → List Glyph → Bool
  | 0, _ => false
  | comments + 1, glyphs =>
    endsBefore operatorMayFollow limit glyphs ||
      match afterComment? glyphs with
      | some rest => mayBeLeftOut operatorMayFollow limit comments rest
      | none => false

end Semicolon

end CallbackLint
