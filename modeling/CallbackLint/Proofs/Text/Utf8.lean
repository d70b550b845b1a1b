import CallbackLint.Text.Utf8

namespace CallbackLint

namespace Utf8

/-!
# Pieces of a longer text

A text may be cut in the middle of a character, or of bytes that are none.  What is
left of such a piece still counts as one, and reading on gives at least one piece in
its stead.  So a text never has fewer pieces than what it begins with, and never more pieces
than bytes.
-/

/-- A pending character comes to some piece, whatever follows. -/
theorem length_piecesAfter_pos (pending : Pending) (bytes : List UInt8) :
    0 < (piecesAfter (some pending) bytes).length := by
  induction bytes generalizing pending with
  | nil => exact Nat.one_pos
  | cons byte rest inductionHypothesis =>
      rw [piecesAfter]
      split
      · split
        · exact Nat.succ_pos _
        · exact inductionHypothesis _
      · exact Nat.succ_pos _

/-- More bytes come to no fewer pieces. -/
theorem length_piecesAfter_le_append (pending? : Option Pending) (bytes more : List UInt8) :
    (piecesAfter pending? bytes).length ≤ (piecesAfter pending? (bytes ++ more)).length := by
  fun_induction piecesAfter pending? bytes with
  | case1 => exact Nat.zero_le _
  | case2 pending => exact length_piecesAfter_pos pending more
  | case3 byte rest piece finished inductionHypothesis =>
      rw [List.cons_append, piecesAfter, finished]
      exact Nat.succ_le_succ inductionHypothesis
  | case4 byte rest pending begun inductionHypothesis =>
      rw [List.cons_append, piecesAfter, begun]
      exact inductionHypothesis
  | case5 pending byte rest goesOn piece finished inductionHypothesis =>
      rw [List.cons_append, piecesAfter, if_pos goesOn, finished]
      exact Nat.succ_le_succ inductionHypothesis
  | case6 pending byte rest goesOn next extended inductionHypothesis =>
      rw [List.cons_append, piecesAfter, if_pos goesOn, extended]
      exact inductionHypothesis
  | case7 pending byte rest breaksOff fresh goingOn =>
      rw [List.cons_append, piecesAfter, if_neg breaksOff]
      cases begun : start byte with
      | inl piece => exact Nat.succ_le_succ (Nat.succ_le_succ fresh)
      | inr next => exact Nat.succ_le_succ (goingOn next)

/-- A text has no fewer pieces than what it begins with. -/
theorem count_le_of_isPrefix {bytes text : List UInt8} (begins : bytes <+: text) :
    count bytes ≤ count text := by
  rcases begins with ⟨more, whole⟩
  rw [count_eq_length, count_eq_length, ← whole]
  exact length_piecesAfter_le_append none bytes more

/-- Each byte begins at most one piece. -/
theorem length_piecesAfter_le (pending? : Option Pending) (bytes : List UInt8) :
    (piecesAfter pending? bytes).length ≤ bytes.length + pending?.toList.length := by
  fun_induction piecesAfter pending? bytes with
  | case7 pending byte rest breaksOff fresh goingOn =>
      cases begun : start byte with
      | inl piece =>
          simp only [Option.toList_none, List.length_nil] at fresh
          simp only [List.length_cons, Option.toList_some, List.length_nil]
          omega
      | inr next =>
          have later := goingOn next
          simp only [Option.toList_some, List.length_singleton] at later
          simp only [List.length_cons, Option.toList_some, List.length_nil]
          omega
  | _ => simp_all <;> omega

/-- A text has no more pieces than bytes. -/
theorem count_le_length (bytes : List UInt8) : count bytes ≤ bytes.length := by
  rw [count_eq_length]
  exact length_piecesAfter_le none bytes

end Utf8

end CallbackLint
