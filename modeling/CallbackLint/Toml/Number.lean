import CallbackLint.Settings.Datum
import CallbackLint.Text.Split
import CallbackLint.Toml.Reader

namespace CallbackLint

/-!
# Numbers, dates and times in TOML

An integer is decimal, or has no sign and a letter for its base.  A decimal
number does not begin with a needless zero.  A fraction or an exponent makes it a
floating-point number, and so do the words for infinity and for no number.

A date has to exist in the calendar.  A time may follow it and may stand alone;
it has no leap seconds.
-/

namespace Toml

/-! ## Numbers -/

namespace Number

/-- The letter for a base, and the digits in that base. -/
def based? : List Char → Option (Nat × List Char)
  | '0' :: letter :: rest =>
    let digits? (base : Nat) (inClass : Char → Bool) : Option (Nat × List Char) :=
      let found := groupedDigits inClass rest
      if found.1.isEmpty then none else some (numberOf base found.1, found.2)
    match letter with
    | 'x' => digits? 16 isHexadecimal
    | 'o' => digits? 8 fun char => '0' ≤ char && char ≤ '7'
    | 'b' => digits? 2 fun char => char == '0' || char == '1'
    | _ => none
  | _ => none

/-- A sign, if there is one: whether it is a minus. -/
def sign : List Char → Bool × List Char
  | '-' :: rest => (true, rest)
  | '+' :: rest => (false, rest)
  | rest => (false, rest)

/-- The digits of a decimal integer, without a needless zero in front. -/
def wholePart? : List Char → Option (List Char × List Char)
  | '0' :: rest => some (['0'], rest)
  | rest =>
    let found := groupedDigits Char.isDigit rest
    if found.1.isEmpty then none else some found

/-- The digits of a fraction, which is empty if there is none. -/
def fraction : List Char → List Char × List Char
  | '.' :: rest =>
    let found := groupedDigits Char.isDigit rest
    if found.1.isEmpty then ([], '.' :: rest) else found
  | rest => ([], rest)

def exponent? : List Char → Option (Int × List Char)
  | letter :: rest =>
    if letter != 'e' && letter != 'E' then none
    else
      let (negative, rest) := sign rest
      let found := groupedDigits Char.isDigit rest
      let size : Int := numberOf 10 found.1
      if found.1.isEmpty then none else some (if negative then -size else size, found.2)
  | [] => none

def decimal? (text : List Char) : Option (Datum × List Char) := do
  let (negative, rest) := sign text
  let (whole, rest) ← wholePart? rest
  let (places, rest) := fraction rest
  let exponent := exponent? rest
  let rest := (exponent.map Prod.snd).getD rest
  let significand := numberOf 10 (whole ++ places)
  if places.isEmpty && exponent.isNone then
    return (.integer (if negative then -(significand : Int) else significand), rest)
  let shift := (exponent.map Prod.fst).getD 0 - places.length
  let size := FloatClass.ofDecimal significand shift
  return (.float (if negative then size.negate else size), rest)

def digits? (text : List Char) : Option (Datum × List Char) :=
  match based? text with
  | some (value, rest) => some (.integer value, rest)
  | none => decimal? text

def special? (text : List Char) : Option (Datum × List Char) :=
  match (sign text).2 with
  | 'i' :: 'n' :: 'f' :: rest => some (.float .nonFinite, rest)
  | 'n' :: 'a' :: 'n' :: rest => some (.float .nonFinite, rest)
  | _ => none

end Number

/-! ## Dates and times -/

namespace Moment

/-- A number of exactly some digits, within bounds. -/
def field? (width low high : Nat) (text : List Char) : Option (Nat × List Char) :=
  let digits := text.take width
  let value := numberOf 10 digits
  if digits.length = width && digits.all Char.isDigit && low ≤ value && value ≤ high then
    some (value, text.drop width)
  else none

/-- What comes after a character. -/
def after? (char : Char) : List Char → Option (List Char)
  | first :: rest => if first = char then some rest else none
  | [] => none

def daysOf (year month : Nat) : Nat :=
  if month = 2 then
    if year % 4 = 0 && (year % 100 != 0 || year % 400 = 0) then 29 else 28
  else if [4, 6, 9, 11].contains month then 30
  else 31

def date? (text : List Char) : Option (List Char) := do
  let (year, rest) ← field? 4 1 9999 text
  let rest ← after? '-' rest
  let (month, rest) ← field? 2 1 12 rest
  let rest ← after? '-' rest
  let (_, rest) ← field? 2 1 (daysOf year month) rest
  return rest

/-- What comes after the fraction of a second, if there is one. -/
def skipFraction : List Char → List Char
  | '.' :: digit :: rest =>
    if digit.isDigit then rest.dropWhile Char.isDigit else '.' :: digit :: rest
  | rest => rest

def clock? (text : List Char) : Option (List Char) := do
  let (_, rest) ← field? 2 0 23 text
  let rest ← after? ':' rest
  let (_, rest) ← field? 2 0 59 rest
  return rest

def time? (text : List Char) : Option (List Char) := do
  let rest ← after? ':' (← clock? text)
  let (_, rest) ← field? 2 0 59 rest
  return skipFraction rest

/-- What comes after an offset from universal time, if there is one. -/
def skipOffset (text : List Char) : List Char :=
  match text with
  | [] => []
  | char :: rest =>
    if char = 'Z' || char = 'z' then rest
    else if char = '+' || char = '-' then (clock? rest).getD text
    else text

/-- What comes after the time of day that follows a date, if there is one. -/
def skipTime (text : List Char) : List Char :=
  match text with
  | [] => []
  | char :: rest =>
    if char = 'T' || char = 't' || char = ' ' then ((time? rest).map skipOffset).getD text
    else text

def read? (text : List Char) : Option (Datum × List Char) :=
  match date? text with
  | some rest => some (.moment, skipTime rest)
  | none => (time? text).map fun rest => (.moment, rest)

end Moment

end Toml

end CallbackLint
