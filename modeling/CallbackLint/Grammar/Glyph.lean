import CallbackLint.Text.Split
import CallbackLint.Text.Utf8

namespace CallbackLint

/-!
# The characters of a script

A script is read character by character.  Each character knows its place in
the source, in bytes, because concrete trees are measured in bytes.

The classes below are those of the language: which characters separate tokens,
which end a line, and which make up a name.
-/

structure Place where
  offset : Nat := 0
  row : Nat := 0
  column : Nat := 0
deriving DecidableEq, Repr

/-- A character of a script at its place. -/
structure Glyph where
  char : Char
  place : Place
  width : Nat
deriving DecidableEq, Repr

namespace Place

/-- The place after a character of some bytes. -/
def after (place : Place) (char : Char) (width : Nat) : Place :=
  if char = '\n' then { offset := place.offset + width, row := place.row + 1, column := 0 }
  else { place with offset := place.offset + width, column := place.column + width }

end Place

namespace Glyph

/-- The characters that some pieces stand for, from a place on. -/
def spread (place : Place) : List Utf8.Piece → List Glyph
  | [] => []
  | piece :: rest =>
    let char := piece.shown
    let width := piece.width
    { char, place, width } :: spread (place.after char width) rest

def ofBytes (source : List UInt8) : List Glyph := spread {} (Utf8.pieces source)

def next (glyph : Glyph) : Place := glyph.place.after glyph.char glyph.width

end Glyph

namespace ScriptChar

def isLineEnd (char : Char) : Bool := char == '\n' || char == '\u2028' || char == '\u2029'

/-- Whether a character ends a comment that goes to the end of the line. -/
def isCommentEnd (char : Char) : Bool := char == '\r' || isLineEnd char

/-- Whether a character separates tokens and means nothing else. -/
def isSpace (char : Char) : Bool :=
  let code := char.toNat
  (isBlank char && !(28 ≤ code && code ≤ 31)) ||
    code == 0x200B || code == 0x2060 || code == 0xFEFF

/-- Whether a character counts as space where the end of a statement is looked
for.  Spaces at which a line must not be broken do not. -/
def isBreakingSpace (char : Char) : Bool :=
  let code := char.toNat
  isSpace char && code != 0x85 && code != 0xA0 && code != 0x2007 && code != 0x202F &&
    code != 0x200B && code != 0x2060 && code != 0xFEFF

/-- The printable ASCII characters that are no part of a name. -/
def punctuation : List Char :=
  [':', ';', '\x60', '\x22', '\x27', '@', '#', '.', ',', '|', '^', '&', '<', '=', '>', '+',
    '-', '*', '/', '\\', '%', '?', '!', '~', '(', ')', '[', ']', '\x7b', '\x7d']

def isNamePart (char : Char) : Bool :=
  32 ≤ char.toNat && !isSpace char && !punctuation.contains char

def isNameStart (char : Char) : Bool := isNamePart char && !char.isDigit

def isHexDigit (char : Char) : Bool :=
  char.isDigit || ('a' ≤ char && char ≤ 'f') || ('A' ≤ char && char ≤ 'F')

end ScriptChar

end CallbackLint
