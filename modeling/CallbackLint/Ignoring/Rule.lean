import CallbackLint.Files.Tree
import CallbackLint.Pattern.Bracket
import CallbackLint.Pattern.Expression
import CallbackLint.Text.Split

namespace CallbackLint

/-!
# Ignore rules

A line of an ignore file is a rule: a pattern for the files below the folder of
the ignore file, or for exceptions if an exclamation mark is before it.  The
pattern stands for a regular expression, in written form, for the names that
lead to a file.  A set in brackets is copied into that form, without the
slashes in it.  A set with nothing left but an exclamation mark therefore runs
on up to the next closing bracket of the written form.

A rule for folders alone ends in a slash.  Since rules are only asked about
files, an exception for folders alone never applies.
-/

/-- Why an ignore file gives no answer. -/
inductive IgnoreFault where
  | unreadable (fault : AccessFault)
  /-- The file is not text. -/
  | notText
  /-- Nothing is left of a pattern, or of a set in it. -/
  | emptyPattern
  /-- The expression of a rule cannot be read. -/
  | badExpression
  /-- A rule is asked about a file outside of its folder. -/
  | outside
deriving DecidableEq, Repr

/-- A rule of an ignore file. -/
structure IgnoreRule where
  /-- Whether the rule makes exceptions. -/
  negated : Bool := false
  /-- The written form of the expression for the files that the rule is about. -/
  written : List Char
deriving DecidableEq, Repr

namespace IgnoreRule

/-! ## The written form of a pattern -/

/-- The characters that have a special meaning in an expression. -/
def special : List Char :=
  ['(', ')', '[', ']', '\x7b', '\x7d', '?', '*', '+', '-', '|', '^', '$', '\\', '.', '&', '~',
    '#', ' ', '\t', '\n', '\r', '\x0b', '\x0c']

/-- The written form of a character that stands for itself. -/
def literal (char : Char) : List Char :=
  if special.contains char then ['\\', char] else [char]

/-- The body of a set in written form, if there is anything left of it. -/
def setBody? (body : List Char) : Option (List Char) :=
  let kept := body.flatMap fun char =>
    if char = '/' then [] else if char = '\\' then ['\\', '\\'] else [char]
  match kept with
  | [] => none
  | '!' :: rest => some ('^' :: rest)
  | '^' :: rest => some ('\\' :: '^' :: rest)
  | kept => some kept

/-- The written form of the inside of a pattern.  Two asterisks go across slashes and a single one
does not.  A bracket that is not closed stands for itself. -/
def writeInside : List Char → Except IgnoreFault (List Char)
  | [] => .ok []
  | '*' :: '*' :: '/' :: rest => writeInside rest |>.map ("(.*[/])?".toList ++ ·)
  | '*' :: '*' :: rest => writeInside rest |>.map (".*".toList ++ ·)
  | '*' :: rest => writeInside rest |>.map ("[^/]*".toList ++ ·)
  | '?' :: rest => writeInside rest |>.map ("[^/]".toList ++ ·)
  | '/' :: rest => writeInside rest |>.map ("[/]".toList ++ ·)
  | '[' :: rest =>
    match _found : Bracket.split? rest with
    | none => writeInside rest |>.map (literal '[' ++ ·)
    | some (body, after) =>
      match setBody? body with
      | none => .error .emptyPattern
      | some kept => writeInside after |>.map ('[' :: kept ++ ']' :: ·)
  | char :: rest => writeInside rest |>.map (literal char ++ ·)
termination_by pattern => pattern.length
decreasing_by
  all_goals first
    | (have shorter := Bracket.length_of_split? _found
       simp only [List.length_cons]
       omega)
    | (simp only [List.length_cons]; omega)

/-- What a pattern is about, beside its inside. -/
structure Scope where
  negated : Bool
  /-- Whether the pattern is for folders alone. -/
  foldersOnly : Bool
  /-- Whether the pattern is tied to the folder of the ignore file. -/
  anchored : Bool
deriving DecidableEq, Repr

def ofPattern (scope : Scope) (inside : List Char) : Except IgnoreFault IgnoreRule := do
  let written ← writeInside inside
  let front := if scope.anchored then "^" else "(^|[/])"
  let back :=
    if !scope.foldersOnly then "$" else if scope.negated then "/$" else "($|\\/)"
  return { negated := scope.negated, written := front.toList ++ written ++ back.toList }

/-! ## Reading lines -/

/-- The same pattern with one asterisk for every two or more that come after a
character other than a slash. -/
def mergeAfterOthers : List Char → List Char
  | first :: '*' :: '*' :: rest =>
    if first = '/' then '/' :: mergeAfterOthers ('*' :: '*' :: rest)
    else first :: '*' :: mergeAfterOthers (rest.dropWhile fun char => char == '*')
  | first :: rest => first :: mergeAfterOthers rest
  | [] => []
termination_by pattern => pattern.length
decreasing_by
  · simp
  · have shorter := (List.dropWhile_suffix (l := rest) fun char => char == '*').length_le
    simp only [List.length_cons]
    omega
  · simp

/-- The same pattern with one asterisk for every two that come before a character
other than a slash. -/
def mergeBeforeOthers : List Char → List Char
  | '*' :: '*' :: next :: rest =>
    if next = '/' then '*' :: '*' :: '/' :: mergeBeforeOthers rest
    else '*' :: next :: mergeBeforeOthers rest
  | first :: rest => first :: mergeBeforeOthers rest
  | [] => []

def trimEnd (text : List Char) : List Char := (text.reverse.dropWhile isBlank).reverse

/-- The front of a pattern that is given backwards, without the spaces at its
end.  A backslash keeps the space after it, and every space before that one; the
first two characters of a pattern are never touched. -/
def trimSpaces (dropping : Bool) (kept : List Char) : List Char → List Char
  | ' ' :: '\\' :: first :: rest => trimSpaces false (' ' :: kept) (first :: rest)
  | ' ' :: second :: first :: rest =>
    trimSpaces dropping (if dropping then kept else ' ' :: kept) (second :: first :: rest)
  | rest => rest.reverse ++ kept

def dropSlash : List Char → List Char
  | '/' :: rest => rest
  | pattern => pattern

/-- A pattern that has something in it. -/
def nonempty (pattern : List Char) : Except IgnoreFault (List Char) :=
  if pattern.isEmpty then .error .emptyPattern else .ok pattern

/-- A pattern without the backslash before a hash or an exclamation mark in
front. -/
def dropBackslash : List Char → Except IgnoreFault (List Char)
  | ['\\'] => .error .emptyPattern
  | '\\' :: '#' :: rest => .ok ('#' :: rest)
  | '\\' :: '!' :: rest => .ok ('!' :: rest)
  | pattern => .ok pattern

/-- The rule for a pattern from which an exclamation mark was taken. -/
def ofMarked (negated : Bool) (pattern : List Char) : Except IgnoreFault (Option IgnoreRule) := do
  let pattern := mergeBeforeOthers (mergeAfterOthers pattern)
  if trimEnd pattern = ['/'] then return none
  let pattern ← nonempty pattern
  let foldersOnly := pattern.getLast? = some '/'
  let tied := pattern.dropLast.contains '/'
  let (pattern, anchored) := match dropSlash pattern with
    | '*' :: '*' :: rest => (rest, false)
    | rest => (rest, tied)
  let pattern ← nonempty (dropSlash (← nonempty pattern))
  let pattern ← nonempty (if pattern.getLast? = some '/' then pattern.dropLast else pattern)
  let pattern ← dropBackslash pattern
  let inside := trimSpaces true [] pattern.reverse
  return some (← ofPattern { negated, foldersOnly, anchored } inside)

/-- The rule in a line, if there is one.  Blank lines and comments hold none. -/
def ofLine (line : List Char) : Except IgnoreFault (Option IgnoreRule) :=
  if (trimBlanks line).isEmpty then .ok none
  else
    match line with
    | '#' :: _ => .ok none
    | '!' :: pattern => ofMarked true pattern
    | pattern => ofMarked false pattern

/-! ## Asking rules -/

/-- Whether a rule is about a file, given by the names that lead to it. -/
def concerns (rule : IgnoreRule) (names : String) : Except IgnoreFault Bool :=
  match Expression.read? rule.written with
  | some expression => .ok (expression.occursIn names.toList)
  | none => .error .badExpression

end IgnoreRule

end CallbackLint
