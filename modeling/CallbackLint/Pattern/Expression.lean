namespace CallbackLint

/-!
# Regular expressions

An expression is matched against a text by marking places.  The places of a
text are those before each character and the one at its end.  From the marked
places at which a match may begin, an expression computes the marked places at
which it may end, by recursion on the expression.

The written form has sets in brackets, groups, alternatives, the quantifiers
`*`, `+` and `?`, the anchors `^` and `$`, and `.` for any character but a line
feed.  A backslash takes the special meaning from the character after it.
-/

/-- A set of characters, given by ranges or by their complement. -/
structure CharSet where
  negated : Bool := false
  ranges : List (Char × Char)
deriving DecidableEq, Repr

namespace CharSet

def has (set : CharSet) (char : Char) : Bool :=
  set.ranges.any (fun range => decide (range.1 ≤ char ∧ char ≤ range.2)) != set.negated

def single (char : Char) : CharSet := { ranges := [(char, char)] }

/-- All characters but the line feed. -/
def inLine : CharSet := { negated := true, ranges := [('\n', '\n')] }

end CharSet

inductive Expression where
  | nothing
  | one (set : CharSet)
  | textStart
  /-- The end of a text, or the place before a line feed at its end. -/
  | textEnd
  | both (first second : Expression)
  | either (first second : Expression)
  | repeated (inner : Expression)
deriving DecidableEq, Repr

namespace Expression

/-! ## Matching -/

/-- Marks for the places of a text. -/
abbrev Marks := List Bool

/-- The places that are marked in one of two ways. -/
def Marks.union (first second : Marks) : Marks := List.zipWith Bool.or first second

/-- The marks of those places of a text at which the text may be said to end. -/
def finalPlaces : List Char → Marks
  | [] => [true]
  | char :: rest => (rest.isEmpty && char == '\n') :: finalPlaces rest

/-- Add the places reached by a step to the marked ones, a number of times. -/
def spread (step : Marks → Marks) : Nat → Marks → Marks
  | 0, marks => marks
  | rounds + 1, marks => spread step rounds (Marks.union marks (step marks))

/-- The places of a text at which an expression may end when it begins at one of
the marked places. -/
def ends (text : List Char) : Expression → Marks → Marks
  | nothing, marks => marks
  | one set, marks => false :: List.zipWith (fun mark char => mark && set.has char) marks text
  | textStart, marks => marks.take 1 ++ (marks.drop 1).map fun _ => false
  | textEnd, marks => List.zipWith Bool.and marks (finalPlaces text)
  | both first second, marks => ends text second (ends text first marks)
  | either first second, marks => Marks.union (ends text first marks) (ends text second marks)
  | repeated inner, marks => spread (ends text inner) text.length marks

/-- Whether an expression matches some part of a text. -/
def occursIn (expression : Expression) (text : List Char) : Bool :=
  (ends text expression (List.replicate (text.length + 1) true)).any id

/-! ## The written form -/

/-- A character of the written form, and whether a backslash is before it. -/
structure Sign where
  char : Char
  escaped : Bool := false
deriving DecidableEq, Repr

/-- The characters of a written form, backslashes resolved. -/
def signs? : List Char → Option (List Sign)
  | [] => some []
  | ['\\'] => none
  | '\\' :: char :: rest => (signs? rest).map ({ char, escaped := true } :: ·)
  | char :: rest => (signs? rest).map ({ char } :: ·)

/-- The ranges of a set up to its closing bracket, which is a member of the set
if it comes first, and what comes after the set. -/
def ranges? (first : Bool) : List Sign → Option (List (Char × Char) × List Sign)
  | [] => none
  | sign :: rest =>
    if sign = { char := ']' } && !first then some ([], rest)
    else
      match rest with
      | { char := '-', escaped := false } :: { char := ']', escaped := false } :: after =>
        some ([(sign.char, sign.char), ('-', '-')], after)
      | { char := '-', escaped := false } :: high :: after =>
        if high.char < sign.char then none
        else (ranges? false after).map fun found => ((sign.char, high.char) :: found.1, found.2)
      | { char := '-', escaped := false } :: [] => none
      | rest => (ranges? false rest).map fun found => ((sign.char, sign.char) :: found.1, found.2)

/-- A set and what comes after it, in a written form that begins right after the
opening bracket. -/
def set? : List Sign → Option (CharSet × List Sign)
  | { char := '^', escaped := false } :: rest =>
    (ranges? true rest).map fun found => ({ negated := true, ranges := found.1 }, found.2)
  | rest => (ranges? true rest).map fun found => ({ ranges := found.1 }, found.2)

/-- A piece of a written form. -/
inductive Token where
  | item (expression : Expression)
  | anchor (expression : Expression)
  | quantifier (apply : Expression → Expression)
  | bar
  | opening
  | closing

def optional (inner : Expression) : Expression := either nothing inner

/-- An expression once or more often. -/
def repeatedOnce (inner : Expression) : Expression := both inner (repeated inner)

/-- What a character of the written form means outside of a set. -/
def tokenOf (sign : Sign) : Token :=
  if sign.escaped then .item (one (.single sign.char))
  else
    match sign.char with
    | '*' => .quantifier repeated
    | '+' => .quantifier repeatedOnce
    | '?' => .quantifier optional
    | '|' => .bar
    | '(' => .opening
    | ')' => .closing
    | '^' => .anchor textStart
    | '$' => .anchor textEnd
    | '.' => .item (one .inLine)
    | char => .item (one (.single char))

/-- The pieces of a written form of at most `size` characters. -/
def tokensUpTo : (size : Nat) → List Sign → Option (List Token)
  | _, [] => some []
  | 0, _ => none
  | size + 1, sign :: rest =>
    if sign = { char := '[' } then
      match set? rest with
      | some (set, after) => (tokensUpTo size after).map (.item (one set) :: ·)
      | none => none
    else (tokensUpTo size rest).map (tokenOf sign :: ·)

/-- A group that is still open: the alternatives before the present one, and the
parts of the present one, last part first. -/
structure Group where
  alternatives : List Expression := []
  parts : List Expression := []
  /-- Whether a quantifier may come next. -/
  quantifiable : Bool := false

namespace Group

def sequence (parts : List Expression) : Expression :=
  parts.foldl (fun later part => both part later) nothing

def nextAlternative (group : Group) : Group :=
  { alternatives := sequence group.parts :: group.alternatives }

def add (group : Group) (part : Expression) (quantifiable : Bool) : Group :=
  { group with parts := part :: group.parts, quantifiable }

/-- The expression that a group stands for. -/
def close (group : Group) : Expression :=
  group.alternatives.foldl (fun later alternative => either alternative later)
    (sequence group.parts)

end Group

/-- Take one more piece of a written form into the innermost open group. -/
def absorb (groups : List Group) (token : Token) : Option (List Group) :=
  match groups with
  | [] => none
  | group :: outer =>
    match token with
    | .item part => some (group.add part true :: outer)
    | .anchor part => some (group.add part false :: outer)
    | .quantifier apply =>
      match group.quantifiable, group.parts with
      | true, part :: parts =>
        some ({ group with parts := apply part :: parts, quantifiable := false } :: outer)
      | _, _ => none
    | .bar => some (group.nextAlternative :: outer)
    | .opening => some ({} :: group :: outer)
    | .closing =>
      match outer with
      | [] => none
      | next :: rest => some (next.add group.close true :: rest)

def read? (text : List Char) : Option Expression :=
  match signs? text with
  | none => none
  | some signs =>
    match tokensUpTo signs.length signs with
    | none => none
    | some tokens =>
      match tokens.foldlM absorb [{}] with
      | some [group] => some group.close
      | _ => none

end Expression

end CallbackLint
