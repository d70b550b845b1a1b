namespace CallbackLint

/-!
# Dynamic values

Settings and diagnostics may come from outside, as values whose shape is not
known beforehand.  `Datum` is such a value.  A reader turns it into a typed
record or says what is wrong with it.

A floating-point number matters to the readers only as a possible integer, so
`FloatClass` keeps no more than that.  `FloatClass.ofDecimal` says what the
binary number of 53 significant bits that is nearest to a decimal is.
-/

/-- What a floating-point number is to a reader that wants an integer. -/
inductive FloatClass where
  | whole (value : Int)
  | fractional
  /-- Infinite, or not a number. -/
  | nonFinite
deriving DecidableEq, Repr

namespace FloatClass

/-- The integer nearest to a quotient; a tie goes to the even one. -/
def nearestQuotient (numerator denominator : Nat) : Nat :=
  let quotient := numerator / denominator
  let twice := 2 * (numerator % denominator)
  if twice < denominator then quotient
  else if denominator < twice then quotient + 1
  else quotient + quotient % 2

/-- A natural number rounded to 53 significant bits. -/
def roundNatural (value : Nat) : Nat :=
  let excess := Nat.pow 2 (value.log2 - 52)
  nearestQuotient value excess * excess

/-- What the double nearest to `numerator / denominator` is. -/
def ofQuotient (numerator denominator : Nat) : FloatClass :=
  let wholePart := numerator / denominator
  if wholePart = 0 then
    if numerator * Nat.pow 2 1075 ≤ denominator then .whole 0
    else if nearestQuotient (numerator * Nat.pow 2 53) denominator = Nat.pow 2 53 then .whole 1
    else .fractional
  else
    let scale := Nat.pow 2 (52 - wholePart.log2)
    let rounded := nearestQuotient (numerator * scale) denominator
    if scale = 1 then .whole (roundNatural wholePart)
    else if rounded % scale = 0 then .whole (rounded / scale : Nat)
    else .fractional

def negate : FloatClass → FloatClass
  | whole value => whole (-value)
  | other => other

/-- What the double nearest to `significand · 10 ^ exponent` is.  Exponents so
large that the number overflows, or so small that it vanishes, are settled
before any power is computed. -/
def ofDecimal (significand : Nat) (exponent : Int) : FloatClass :=
  let digits := (Nat.toDigits 10 significand).length
  if significand = 0 then .whole 0
  else if 310 < exponent + digits then .nonFinite
  else if exponent + digits < -330 then .whole 0
  else if 0 ≤ exponent then
    let value := roundNatural (significand * Nat.pow 10 exponent.toNat)
    if Nat.pow 2 1024 ≤ value then .nonFinite else .whole value
  else ofQuotient significand (Nat.pow 10 (-exponent).toNat)

end FloatClass

/-- A value of a shape that is not known beforehand.  No reader tells one kind of sequence from
another, so `list` stands for tuples as well as for lists. -/
inductive Datum where
  | null
  | boolean (value : Bool)
  | integer (value : Int)
  | float (value : FloatClass)
  | text (value : String)
  /-- A date or a time of day. -/
  | moment
  | list (items : List Datum)
  /-- A table; no two entries have the same key. -/
  | table (entries : List (String × Datum))

namespace Datum

/-- The value of a key among the entries of a table. -/
def find? (key : String) (entries : List (String × Datum)) : Option Datum :=
  (entries.find? fun entry => entry.1 == key).map Prod.snd

end Datum

end CallbackLint
