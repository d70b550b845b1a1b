namespace CallbackLint

/-!
# Bracketed sets in patterns

A pattern may hold a set of characters in brackets.  An exclamation mark right
after the opening bracket does not end the set, and neither does a closing
bracket in the first place.  Without a closing bracket there is no set.
-/

namespace Bracket

/-- The part of a text up to a closing bracket, and what comes after the
bracket. -/
def upToClosing? (text : List Char) : Option (List Char × List Char) :=
  match text.dropWhile fun char => char != ']' with
  | _ :: rest => some (text.takeWhile fun char => char != ']', rest)
  | [] => none

/-- The body of a set and what comes after it, in a text that begins right
after the opening bracket. -/
def split? (text : List Char) : Option (List Char × List Char) :=
  let lead := match text with
    | '!' :: ']' :: _ => 2
    | '!' :: _ => 1
    | ']' :: _ => 1
    | _ => 0
  (upToClosing? (text.drop lead)).map fun found => (text.take lead ++ found.1, found.2)

theorem length_of_upToClosing? {text body rest : List Char}
    (found : upToClosing? text = some (body, rest)) : rest.length < text.length := by
  have shorter := (List.dropWhile_suffix (l := text) fun char => char != ']').length_le
  unfold upToClosing? at found
  split at found
  · next left others remains =>
    simp only [Option.some.injEq, Prod.mk.injEq] at found
    rw [remains] at shorter
    rw [← found.2]
    simp only [List.length_cons] at shorter
    omega
  · exact absurd found (by simp)

/-- What comes after a set is shorter than the text that holds the set. -/
theorem length_of_split? {text body rest : List Char}
    (found : split? text = some (body, rest)) : rest.length < text.length := by
  simp only [split?, Option.map_eq_some_iff] at found
  obtain ⟨⟨inner, after⟩, reached, same⟩ := found
  have shorter := length_of_upToClosing? reached
  simp only [Prod.mk.injEq] at same
  rw [← same.2]
  simp only [List.length_drop] at shorter
  omega

end Bracket

end CallbackLint
