import CallbackLint.Report.Json
import CallbackLint.Text.Split
import Mathlib.Data.List.Basic

namespace CallbackLint

/-!
# Reading JSON documents

A document is read in two passes.  The first divides it into tokens, character by
character; blanks between tokens are left out, and escapes are undone.  The second puts
the tokens together and keeps a stack of the lists and objects that are still open.

The reader knows nothing about how documents are laid out.  It takes any spelling of a
string, with characters that are escaped by their code too, and refuses what `Json` has no
value for, which is fractions and truth values.
-/

namespace Json

/-! ## Tokens -/

inductive Token where
  | openList
  | closeList
  | openObject
  | closeObject
  | comma
  | colon
  | null
  | integer (value : Int)
  | text (value : String)

def isSpace (char : Char) : Bool :=
  char == ' ' || char == '\t' || char == '\n' || char == '\r'

/-- Whether a character may stand in a name or a number. -/
def isBare (char : Char) : Bool :=
  char.isAlphanum || char == '-' || char == '+' || char == '.'

/-- The number that some digits are.  Zeros that are not needed are refused. -/
def natural? (digits : List Char) : Option Nat :=
  if digits ≠ [] ∧ digits.all Char.isDigit ∧ (digits.head? = some '0' → digits = ['0']) then
    some (Nat.ofDigitChars 10 digits 0)
  else none

def integer? (word : List Char) : Option Int :=
  if word.head? = some '-' then (natural? word.tail).map fun (number : Nat) => -(number : Int)
  else (natural? word).map Int.ofNat

def word? (word : List Char) : Option Token :=
  if word = "null".toList then some .null else (integer? word).map .integer

/-- Whether a code is the first half of a character outside the first plane. -/
def isHighHalf (code : Nat) : Bool := decide (0xD800 ≤ code ∧ code < 0xDC00)

/-- Whether a code is the second half of a character outside the first plane. -/
def isLowHalf (code : Nat) : Bool := decide (0xDC00 ≤ code ∧ code < 0xE000)

/-- The characters that some codes stand for, after the first half of one if there is any.
Halves without each other are refused. -/
def characters? : (high : Option Nat) → List Nat → Option (List Char)
  | none, [] => some []
  | none, code :: rest =>
    if isHighHalf code then characters? (some code) rest
    else if isLowHalf code then none
    else (characters? none rest).map (Char.ofNat code :: ·)
  | some _, [] => none
  | some high, code :: rest =>
    if isLowHalf code then
      (characters? none rest).map
        (Char.ofNat (0x10000 + 0x400 * (high - 0xD800) + (code - 0xDC00)) :: ·)
    else none

/-- What a reader is in the middle of, with what it has read of it.  In a text these are
the codes of the characters. -/
inductive Mode where
  | between
  | word (read : List Char)
  | text (read : List Nat)
  | escape (read : List Nat)
  | code (read : List Nat) (digits : List Char)

def escaped? (char : Char) : Option Char :=
  [('\x22', '\x22'), ('\\', '\\'), ('/', '/'), ('b', '\x08'), ('t', '\t'), ('n', '\n'),
    ('f', '\x0c'), ('r', '\r')].lookup char

def mark? (char : Char) : Option Token :=
  [('[', Token.openList), (']', .closeList), ('\x7b', .openObject), ('\x7d', .closeObject),
    (',', .comma), (':', .colon)].lookup char

/-- A character between two tokens. -/
def start (char : Char) : Option (List Token × Mode) :=
  if isSpace char then some ([], .between)
  else if isBare char then some ([], .word [char])
  else if char = '\x22' then some ([], .text [])
  else (mark? char).map fun token => ([token], .between)

/-- The tokens that end with the next character or before it, and what follows. -/
def advance : Mode → Char → Option (List Token × Mode)
  | .between, char => start char
  | .word read, char => do
    if isBare char then return ([], .word (read ++ [char]))
    let token ← word? read
    let next ← start char
    return (token :: next.1, next.2)
  | .text read, char => do
    if char = '\x22' then return ([.text (String.ofList (← characters? none read))], .between)
    if char = '\\' then return ([], .escape read)
    if char.toNat < 32 then failure
    return ([], .text (read ++ [char.toNat]))
  | .escape read, char => do
    if char = 'u' then return ([], .code read [])
    return ([], .text (read ++ [(← escaped? char).toNat]))
  | .code read digits, char => do
    if !isHexadecimal char then failure
    if digits.length < 3 then return ([], .code read (digits ++ [char]))
    return ([], .text (read ++ [numberOf 16 (digits ++ [char])]))

/-- The tokens that end with the document. -/
def finish : Mode → Option (List Token)
  | .between => some []
  | .word read => (word? read).map ([·])
  | _ => none

def tokens? : Mode → List Char → Option (List Token)
  | mode, [] => finish mode
  | mode, char :: rest => do
    let next ← advance mode char
    return next.1 ++ (← tokens? next.2 rest)

/-! ## Values -/

/-- A list or an object that is still open, with what is complete of it.  In an object the
key of the next value is known. -/
inductive Frame where
  | list (done : List Json)
  | object (done : List (String × Json)) (key : String)

/-- What may come next, with the lists and objects that are open, from the inside to the
outside. -/
inductive State where
  /-- A value. -/
  | value (frames : List Frame)
  /-- The first item of a list, or its end. -/
  | firstItem (frames : List Frame)
  /-- The first key of an object, or its end. -/
  | firstKey (frames : List Frame)
  /-- A key. -/
  | key (done : List (String × Json)) (frames : List Frame)
  /-- The colon after a key. -/
  | colon (done : List (String × Json)) (key : String) (frames : List Frame)
  /-- The end of the document, or what follows on a value in a list or an object. -/
  | after (value : Json) (frames : List Frame)

def begin? (frames : List Frame) : Token → Option State
  | .null => some (.after .null frames)
  | .integer value => some (.after (.integer value) frames)
  | .text value => some (.after (.text value) frames)
  | .openList => some (.firstItem frames)
  | .openObject => some (.firstKey frames)
  | _ => none

def step? : State → Token → Option State
  | .value frames, token => begin? frames token
  | .firstItem frames, .closeList => some (.after (.list []) frames)
  | .firstItem frames, token => begin? (.list [] :: frames) token
  | .firstKey frames, .closeObject => some (.after (.object []) frames)
  | .firstKey frames, .text key => some (.colon [] key frames)
  | .key done frames, .text key => some (.colon done key frames)
  | .colon done key frames, .colon => some (.value (.object done key :: frames))
  | .after value (.list done :: frames), .comma =>
    some (.value (.list (done ++ [value]) :: frames))
  | .after value (.list done :: frames), .closeList =>
    some (.after (.list (done ++ [value])) frames)
  | .after value (.object done key :: frames), .comma =>
    some (.key (done ++ [(key, value)]) frames)
  | .after value (.object done key :: frames), .closeObject =>
    some (.after (.object (done ++ [(key, value)])) frames)
  | _, _ => none

def run? (state : State) (tokens : List Token) : Option State := tokens.foldlM step? state

/-- The value that a document holds. -/
def parse? (document : List Char) : Option Json := do
  match ← run? (.value []) (← tokens? .between document) with
  | .after value [] => some value
  | _ => none

/-! ## Reading characters -/

theorem tokens?_cons {mode next : Mode} {char : Char} {found : List Token}
    (advances : advance mode char = some (found, next)) (rest : List Char) :
    tokens? mode (char :: rest) = (tokens? next rest).map (found ++ ·) := by
  rw [tokens?, advances, Option.bind_eq_bind, Option.bind_some]
  cases tokens? next rest <;> rfl

/-- A character that ends no token. -/
theorem tokens?_cons_nil {mode next : Mode} {char : Char}
    (advances : advance mode char = some ([], next)) (rest : List Char) :
    tokens? mode (char :: rest) = tokens? next rest := by
  rw [tokens?_cons advances]
  cases tokens? next rest <;> rfl

theorem tokens?_margin (depth : Nat) (rest : List Char) :
    tokens? .between (margin depth ++ rest) = tokens? .between rest := by
  have skips : (count : Nat) →
      tokens? .between (List.replicate count ' ' ++ rest) = tokens? .between rest := by
    intro count
    induction count with
    | zero => rfl
    | succ count inductionHypothesis =>
        rw [List.replicate_succ, List.cons_append, tokens?_cons_nil rfl, inductionHypothesis]
  rw [margin, List.cons_append, tokens?_cons_nil rfl, skips]

/-! ## Reading names and numbers -/

/-- Nothing that may stand in a name or a number is at the front of a text. -/
def EndsWord (text : List Char) : Prop := ∀ char ∈ text.head?, isBare char = false

theorem endsWord_nil : EndsWord [] := by
  intro char isHead
  cases isHead

theorem endsWord_cons {char : Char} (plain : isBare char = false) (rest : List Char) :
    EndsWord (char :: rest) := by
  intro first isHead
  cases isHead
  exact plain

theorem isSpace_of_isBare {char : Char} (bare : isBare char = true) : isSpace char = false := by
  rw [Bool.eq_false_iff]
  intro space
  simp only [isSpace, Bool.or_eq_true, beq_iff_eq] at space
  rcases space with ((rfl | rfl) | rfl) | rfl <;> exact absurd bare (by decide)

/-- The characters of a word are taken together. -/
theorem tokens?_word_append (read : List Char) {word : List Char}
    (bare : ∀ char ∈ word, isBare char = true) (rest : List Char) :
    tokens? (.word read) (word ++ rest) = tokens? (.word (read ++ word)) rest := by
  induction word generalizing read with
  | nil => rw [List.append_nil, List.nil_append]
  | cons char word inductionHypothesis =>
      have advances : advance (.word read) char = some ([], .word (read ++ [char])) := by
        rw [advance, if_pos (bare char List.mem_cons_self)]
        rfl
      rw [List.cons_append, tokens?_cons_nil advances,
        inductionHypothesis _ fun next isIn => bare next (List.mem_cons_of_mem _ isIn),
        List.append_assoc, List.singleton_append]

theorem tokens?_word_end {read rest : List Char} {token : Token}
    (isToken : word? read = some token) (ends : EndsWord rest) :
    tokens? (.word read) rest = (tokens? .between rest).map (token :: ·) := by
  cases rest with
  | nil => rw [tokens?, tokens?, finish, finish, isToken]; rfl
  | cons char rest =>
      have plain : isBare char = false := ends char rfl
      rw [tokens?, tokens?, advance, advance, isToken, plain]
      cases start char with
      | none => rfl
      | some next =>
          simp only [Option.bind_eq_bind, Option.bind_some, Option.pure_def, Bool.false_eq_true,
            if_false]
          cases tokens? next.2 rest <;> rfl

/-- A word is one token where no longer word is. -/
theorem tokens?_word {word rest : List Char} {token : Token} (nonempty : word ≠ [])
    (bare : ∀ char ∈ word, isBare char = true) (isToken : word? word = some token)
    (ends : EndsWord rest) :
    tokens? .between (word ++ rest) = (tokens? .between rest).map (token :: ·) := by
  cases word with
  | nil => exact absurd rfl nonempty
  | cons char word =>
      have first := bare char List.mem_cons_self
      have advances : advance .between char = some ([], .word [char]) := by
        rw [advance, start, if_neg (Bool.eq_false_iff.mp (isSpace_of_isBare first)), if_pos first]
      rw [List.cons_append, tokens?_cons_nil advances,
        tokens?_word_append _ fun next isIn => bare next (List.mem_cons_of_mem _ isIn),
        List.singleton_append, tokens?_word_end isToken ends]

/-! ## Reading integers -/

/-- A positive number is written without a zero at the front. -/
theorem head?_toDigits {number : Nat} (positive : 0 < number) :
    (Nat.toDigits 10 number).head? ≠ some '0' := by
  induction number using Nat.strongRecOn with
  | ind number inductionHypothesis =>
      by_cases small : number < 10
      · rw [Nat.toDigits_of_lt_base small]
        have digits : ∀ digit < 10, 0 < digit → [digit.digitChar].head? ≠ some '0' := by decide
        exact digits number small positive
      · rw [Nat.toDigits_of_base_le (by decide) (Nat.le_of_not_lt small)]
        have shorter := inductionHypothesis (number / 10) (by omega) (by omega)
        cases front : Nat.toDigits 10 (number / 10) with
        | nil => exact absurd front Nat.toDigits_ne_nil
        | cons char rest =>
            rw [front] at shorter
            exact shorter

theorem isBare_of_isDigit {char : Char} (digit : char.isDigit = true) : isBare char = true := by
  rw [isBare, Char.isAlphanum, digit, Bool.or_true, Bool.true_or, Bool.true_or, Bool.true_or]

theorem isDigit_of_mem_toDigits {number : Nat} {char : Char}
    (isIn : char ∈ Nat.toDigits 10 number) : char.isDigit = true :=
  Nat.isDigit_of_mem_toDigits (by decide) (by decide) isIn

theorem natural?_toDigits (number : Nat) : natural? (Nat.toDigits 10 number) = some number := by
  have noPadding : (Nat.toDigits 10 number).head? = some '0' → Nat.toDigits 10 number = ['0'] := by
    intro padded
    rcases Nat.eq_zero_or_pos number with rfl | positive
    · rfl
    · exact absurd padded (head?_toDigits positive)
  have digits : (Nat.toDigits 10 number).all Char.isDigit = true :=
    List.all_eq_true.mpr fun _ => isDigit_of_mem_toDigits
  rw [natural?, if_pos ⟨Nat.toDigits_ne_nil, digits, noPadding⟩,
    Nat.ofDigitChars_toDigits (by decide) (by decide)]

theorem toList_toString_negSucc (number : Nat) :
    (toString (Int.negSucc number)).toList = '-' :: Nat.toDigits 10 (number + 1) := by
  rw [← Nat.toList_repr]
  exact String.toList_append

/-- An integer is read back from its digits and its sign. -/
theorem integer?_toString (value : Int) : integer? (toString value).toList = some value := by
  cases value with
  | ofNat number =>
      have written : (toString (Int.ofNat number)).toList = Nat.toDigits 10 number :=
        Nat.toList_repr
      have unsigned : (Nat.toDigits 10 number).head? ≠ some '-' := by
        intro signed
        exact absurd (isDigit_of_mem_toDigits (List.mem_of_mem_head? signed)) (by decide)
      rw [written, integer?, if_neg unsigned, natural?_toDigits]
      rfl
  | negSucc number =>
      rw [toList_toString_negSucc, integer?, List.head?_cons, if_pos rfl, List.tail_cons,
        natural?_toDigits]
      rfl

/-- An integer is written with digits and a sign. -/
theorem isDigit_or_of_mem_toString {value : Int} {char : Char}
    (isIn : char ∈ (toString value).toList) : char.isDigit = true ∨ char = '-' := by
  cases value with
  | ofNat number =>
      have digits : char ∈ number.repr.toList := isIn
      rw [Nat.toList_repr] at digits
      exact .inl (isDigit_of_mem_toDigits digits)
  | negSucc number =>
      rw [toList_toString_negSucc] at isIn
      rcases List.mem_cons.mp isIn with sign | digits
      · exact .inr sign
      · exact .inl (isDigit_of_mem_toDigits digits)

theorem word?_toString (value : Int) :
    word? (toString value).toList = some (.integer value) := by
  have notNull : (toString value).toList ≠ "null".toList := by
    intro same
    have letter : 'n' ∈ (toString value).toList := by
      rw [same]
      decide
    rcases isDigit_or_of_mem_toString letter with digit | sign
    · exact absurd digit (by decide)
    · exact absurd sign (by decide)
  rw [word?, if_neg notNull, integer?_toString]
  rfl

/-! ## Reading strings -/

/-- Characters are not halves of others. -/
theorem characters?_toNat (text : List Char) :
    characters? none (text.map Char.toNat) = some text := by
  induction text with
  | nil => rfl
  | cons char rest inductionHypothesis =>
      -- The codes of halves are those that no character has.
      have valid : char.toNat < 0xD800 ∨ 0xDFFF < char.toNat ∧ char.toNat < 0x110000 := char.valid
      have notHigh : ¬ isHighHalf char.toNat := by
        rw [isHighHalf, decide_eq_true_eq]
        omega
      have notLow : ¬ isLowHalf char.toNat := by
        rw [isLowHalf, decide_eq_true_eq]
        omega
      rw [List.map_cons, characters?, if_neg notHigh, if_neg notLow, inductionHypothesis,
        Option.map_some, Char.ofNat_toNat]

theorem tokens?_escaped {char code : Char} (stands : escaped? code = some char)
    (read : List Nat) (rest : List Char) :
    tokens? (.text read) ('\\' :: code :: rest) = tokens? (.text (read ++ [char.toNat])) rest := by
  have notCode : code ≠ 'u' := by
    rintro rfl
    cases stands
  have advances : advance (.escape read) code = some ([], .text (read ++ [char.toNat])) := by
    rw [advance, if_neg notCode, stands]
    rfl
  rw [tokens?_cons_nil rfl, tokens?_cons_nil advances]

/-- The digits of a number below sixteen. -/
theorem digitValue_hexDigit : ∀ value < 16,
    isHexadecimal (hexDigit value) = true ∧ digitValue (hexDigit value) = value := by
  decide

/-- A character may be given by the digits of its code. -/
theorem tokens?_code {code : Nat} (small : code < 0x100) (read : List Nat) (rest : List Char) :
    tokens? (.text read)
        ('\\' :: 'u' :: '0' :: '0' :: hexDigit (code / 16) :: hexDigit (code % 16) :: rest) =
      tokens? (.text (read ++ [code])) rest := by
  have ⟨highIs, high⟩ := digitValue_hexDigit (code / 16) (by omega)
  have ⟨lowIs, low⟩ := digitValue_hexDigit (code % 16) (by omega)
  have first : advance (.code read []) '0' = some ([], .code read ['0']) := rfl
  have second : advance (.code read ['0']) '0' = some ([], .code read ['0', '0']) := rfl
  have third : advance (.code read ['0', '0']) (hexDigit (code / 16)) =
      some ([], .code read ['0', '0', hexDigit (code / 16)]) := by
    rw [advance, highIs]
    rfl
  have number : numberOf 16 ['0', '0', hexDigit (code / 16), hexDigit (code % 16)] = code := by
    rw [numberOf, List.foldl, List.foldl, List.foldl, List.foldl, List.foldl, high, low,
      show digitValue '0' = 0 from rfl]
    omega
  have fourth : advance (.code read ['0', '0', hexDigit (code / 16)]) (hexDigit (code % 16)) =
      some ([], .text (read ++ [code])) := by
    rw [advance, lowIs, List.cons_append, List.cons_append, List.cons_append, List.nil_append,
      number]
    rfl
  rw [tokens?_cons_nil rfl, tokens?_cons_nil rfl, tokens?_cons_nil first,
    tokens?_cons_nil second, tokens?_cons_nil third, tokens?_cons_nil fourth]

/-- Escapes are undone. -/
theorem tokens?_escape (read : List Nat) (char : Char) (rest : List Char) :
    tokens? (.text read) (escape char ++ rest) = tokens? (.text (read ++ [char.toNat])) rest := by
  rw [escape]
  split_ifs with quotes backslash backspace tab lineEnd pageEnd carriageReturn control
  · rw [quotes]
    exact tokens?_escaped rfl read rest
  · rw [backslash]
    exact tokens?_escaped rfl read rest
  · rw [backspace]
    exact tokens?_escaped rfl read rest
  · rw [tab]
    exact tokens?_escaped rfl read rest
  · rw [lineEnd]
    exact tokens?_escaped rfl read rest
  · rw [pageEnd]
    exact tokens?_escaped rfl read rest
  · rw [carriageReturn]
    exact tokens?_escaped rfl read rest
  · exact tokens?_code (by omega) read rest
  · have advances : advance (.text read) char = some ([], .text (read ++ [char.toNat])) := by
      rw [advance, if_neg quotes, if_neg backslash, if_neg control]
      rfl
    exact tokens?_cons_nil advances rest

theorem tokens?_flatMap_escape (read : List Nat) (text : List Char) (rest : List Char) :
    tokens? (.text read) (text.flatMap escape ++ rest) =
      tokens? (.text (read ++ text.map Char.toNat)) rest := by
  induction text generalizing read with
  | nil => rw [List.map_nil, List.append_nil, List.flatMap_nil, List.nil_append]
  | cons char text inductionHypothesis =>
      rw [List.flatMap_cons, List.append_assoc, tokens?_escape, inductionHypothesis,
        List.append_assoc, List.singleton_append, List.map_cons]

/-- A string in quotes is one token. -/
theorem tokens?_quote (text : String) (rest : List Char) :
    tokens? .between (quote text.toList ++ rest) =
      (tokens? .between rest).map (.text text :: ·) := by
  have ends : advance (.text (text.toList.map Char.toNat)) '\x22' =
      some ([.text text], .between) := by
    rw [advance, if_pos rfl, characters?_toNat]
    exact congrArg (fun value => some ([Token.text value], Mode.between)) String.ofList_toList
  rw [quote, List.cons_append, tokens?_cons_nil rfl, List.append_assoc, tokens?_flatMap_escape,
    List.nil_append, List.singleton_append, tokens?_cons ends]
  rfl

end Json

end CallbackLint
