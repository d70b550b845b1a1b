namespace CallbackLint

/-!
# Reading bytes as text

Bytes are read as UTF-8 one at a time.  Where they are not well formed, the
longest run of bytes that could begin a character counts as one invalid piece,
and reading goes on right after it.  The three ways to read a text differ only
in what becomes of the invalid pieces: they are replaced, dropped or refused.
-/

namespace Utf8

/-- A piece of a byte sequence: a character, or bytes that are none. -/
inductive Piece where
  | char (value : Char)
  /-- Some bytes that could begin a character but do not go on as one. -/
  | invalid (width : Nat)
deriving DecidableEq, Repr

/-- A character of which some bytes are still to come. -/
structure Pending where
  /-- The code so far. -/
  code : Nat
  /-- How many bytes are missing. -/
  missing : Nat
  /-- How many bytes have been read. -/
  taken : Nat := 1
  /-- The least byte that may come next. -/
  low : UInt8 := 0x80
  /-- The greatest byte that may come next. -/
  high : UInt8 := 0xBF
deriving DecidableEq, Repr

/-- What the first byte of a piece begins: a finished piece or a pending character.  The bounds on
the byte after it rule out codes that would fit into fewer bytes, surrogates, and codes beyond the
last plane. -/
def start (byte : UInt8) : Piece ⊕ Pending :=
  let bits := byte.toNat
  if byte < 0x80 then .inl (.char (Char.ofNat bits))
  else if byte < 0xC2 then .inl (.invalid 1)
  else if byte < 0xE0 then .inr { code := bits - 0xC0, missing := 1 }
  else if byte = 0xE0 then .inr { code := 0, missing := 2, low := 0xA0 }
  else if byte = 0xED then .inr { code := 0xD, missing := 2, high := 0x9F }
  else if byte < 0xF0 then .inr { code := bits - 0xE0, missing := 2 }
  else if byte = 0xF0 then .inr { code := 0, missing := 3, low := 0x90 }
  else if byte < 0xF4 then .inr { code := bits - 0xF0, missing := 3 }
  else if byte = 0xF4 then .inr { code := 4, missing := 3, high := 0x8F }
  else .inl (.invalid 1)

/-- Whether a byte goes on with a pending character. -/
def Pending.continuedBy (pending : Pending) (byte : UInt8) : Bool :=
  decide (pending.low ≤ byte) && decide (byte ≤ pending.high)

/-- What a byte that goes on with a pending character makes of it. -/
def Pending.extend (pending : Pending) (byte : UInt8) : Piece ⊕ Pending :=
  let code := pending.code * 64 + (byte.toNat - 0x80)
  if pending.missing ≤ 1 then .inl (.char (Char.ofNat code))
  else .inr { code, missing := pending.missing - 1, taken := pending.taken + 1 }

/-- The pieces of some bytes, after a pending character if there is one. -/
def piecesAfter : Option Pending → List UInt8 → List Piece
  | none, [] => []
  | some pending, [] => [.invalid pending.taken]
  | none, byte :: rest =>
    match start byte with
    | .inl piece => piece :: piecesAfter none rest
    | .inr pending => piecesAfter (some pending) rest
  | some pending, byte :: rest =>
    if pending.continuedBy byte then
      match pending.extend byte with
      | .inl piece => piece :: piecesAfter none rest
      | .inr next => piecesAfter (some next) rest
    else
      .invalid pending.taken ::
        match start byte with
        | .inl piece => piece :: piecesAfter none rest
        | .inr next => piecesAfter (some next) rest

def pieces (bytes : List UInt8) : List Piece := piecesAfter none bytes

/-- The character that stands for a piece when invalid ones are replaced. -/
def Piece.shown : Piece → Char
  | .char value => value
  | .invalid _ => '\uFFFD'

/-- The character of a piece, if it has one. -/
def Piece.char? : Piece → Option Char
  | .char value => some value
  | .invalid _ => none

def Piece.width : Piece → Nat
  | .char value => value.utf8Size
  | .invalid width => width

/-- A text in which each invalid piece is replaced by one character. -/
def decodeReplacing (bytes : List UInt8) : List Char := (pieces bytes).map Piece.shown

/-- A text from which invalid pieces are dropped. -/
def decodeDropping (bytes : List UInt8) : List Char := (pieces bytes).filterMap Piece.char?

/-- A text, provided that no piece is invalid. -/
def decode? (bytes : List UInt8) : Option (List Char) := (pieces bytes).mapM Piece.char?

/-! ## Counting -/

/-- The number of pieces of some bytes, after a pending character if there is
one, added to `total`. -/
def countAfter (total : Nat) : Option Pending → List UInt8 → Nat
  | none, [] => total
  | some _, [] => total + 1
  | none, byte :: rest =>
    match start byte with
    | .inl _ => countAfter (total + 1) none rest
    | .inr pending => countAfter total (some pending) rest
  | some pending, byte :: rest =>
    if pending.continuedBy byte then
      match pending.extend byte with
      | .inl _ => countAfter (total + 1) none rest
      | .inr next => countAfter total (some next) rest
    else
      match start byte with
      | .inl _ => countAfter (total + 2) none rest
      | .inr next => countAfter (total + 1) (some next) rest

/-- The number of pieces of some bytes. -/
def count (bytes : List UInt8) : Nat := countAfter 0 none bytes

theorem countAfter_eq (total : Nat) (pending? : Option Pending) (bytes : List UInt8) :
    countAfter total pending? bytes = total + (piecesAfter pending? bytes).length := by
  fun_induction countAfter total pending? bytes <;>
    simp_all [piecesAfter] <;> omega

/-- Counting pieces is listing them and counting the list. -/
theorem count_eq_length (bytes : List UInt8) : count bytes = (pieces bytes).length := by
  simp [count, pieces, countAfter_eq]

end Utf8

end CallbackLint
