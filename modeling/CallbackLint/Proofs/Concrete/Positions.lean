import CallbackLint.Proofs.Concrete.Order
import CallbackLint.Proofs.Text.Encoding

namespace CallbackLint

/-!
# Positions and characters

In the bytes of a text a node begins with a character, or at the end.  What is before it
is then the bytes of a text too, and its position counts the newlines of that text and the
characters after the last of them.  Different places have different positions, in the same
order, and a position leads back to the character: it is the column of its line.

Bytes of the same value as a newline are newlines, since every byte of a longer character
is greater than all of those that stand alone.
-/

/-! ## Boundaries between characters -/

namespace Utf8

/-- A place is not inside a character: no byte there goes on with one. -/
def IsBoundary (source : List UInt8) (place : Nat) : Prop :=
  place ≤ source.length ∧ ∀ byte ∈ source[place]?, ¬ IsTail byte

/-- The bytes of a character: one below 128 that stands alone, or a greater one that begins
it and others that go on with it. -/
theorem exists_utf8EncodeChar_eq (char : Char) :
    ∃ first rest, String.utf8EncodeChar char = first :: rest ∧
      (char.toNat < 0x80 ∧ first.toNat = char.toNat ∧ rest = [] ∨
        0x80 ≤ char.toNat ∧ 0xC0 ≤ first.toNat) ∧
      ∀ byte ∈ rest, IsTail byte := by
  have spells : Spells (String.utf8EncodeChar char) char.toNat := spells_iff.mpr rfl
  generalize String.utf8EncodeChar char = bytes at spells
  generalize char.toNat = code at spells
  cases spells with
  | one lead sum =>
      refine ⟨_, _, rfl, Or.inl ⟨by omega, sum.symm, rfl⟩, ?_⟩
      intro byte member
      cases member
  | two lead secondTail sum =>
      refine ⟨_, _, rfl, Or.inr ⟨by omega, by omega⟩, ?_⟩
      rw [List.forall_mem_singleton]
      exact secondTail
  | three lead secondTail thirdTail sum long real =>
      refine ⟨_, _, rfl, Or.inr ⟨by omega, by omega⟩, ?_⟩
      rw [List.forall_mem_cons, List.forall_mem_singleton]
      exact ⟨secondTail, thirdTail⟩
  | four lead secondTail thirdTail fourthTail sum long real =>
      refine ⟨_, _, rfl, Or.inr ⟨by omega, by omega⟩, ?_⟩
      rw [List.forall_mem_cons, List.forall_mem_cons, List.forall_mem_singleton]
      exact ⟨secondTail, thirdTail, fourthTail⟩

theorem encode_append (first second : List Char) :
    encode (first ++ second) = encode first ++ encode second := List.flatMap_append

/-- In the bytes of a text the boundaries are the places between what its parts become. -/
theorem isBoundary_encode_iff {text : List Char} {place : Nat} :
    IsBoundary (encode text) place ↔
      ∃ before after, text = before ++ after ∧ place = (encode before).length := by
  constructor
  · intro boundary
    induction text generalizing place with
    | nil => exact ⟨[], [], rfl, Nat.le_zero.mp boundary.1⟩
    | cons char text inductionHypothesis =>
        rcases exists_utf8EncodeChar_eq char with ⟨first, rest, bytes, _, tails⟩
        rw [encode_cons, bytes, List.cons_append] at boundary
        rcases place with _ | inner
        · exact ⟨[], char :: text, rfl, rfl⟩
        · rcases boundary with ⟨inside, noTail⟩
          rw [List.length_cons, List.length_append, Nat.succ_le_succ_iff] at inside
          rw [List.getElem?_cons_succ] at noTail
          by_cases within : inner < rest.length
          · rw [List.getElem?_append_left within, List.getElem?_eq_getElem within] at noTail
            exact absurd (tails _ (List.getElem_mem within)) (noTail _ rfl)
          · rw [List.getElem?_append_right (Nat.le_of_not_lt within)] at noTail
            rcases inductionHypothesis ⟨by omega, noTail⟩ with ⟨before, after, split, length⟩
            refine ⟨char :: before, after, by rw [split, List.cons_append], ?_⟩
            rw [encode_cons, bytes, List.length_append, List.length_cons, ← length]
            omega
  · rintro ⟨before, after, rfl, rfl⟩
    rw [encode_append]
    constructor
    · rw [List.length_append]
      exact Nat.le_add_right _ _
    · rw [List.getElem?_append_right (Nat.le_refl _), Nat.sub_self]
      cases after with
      | nil =>
          intro byte impossible
          cases impossible
      | cons char after =>
          rcases exists_utf8EncodeChar_eq char with ⟨first, rest, bytes, begins, _⟩
          rw [encode_cons, bytes, List.cons_append, List.getElem?_cons_zero]
          rintro byte ⟨⟩
          omega

/-- There is one piece for each character of a text. -/
theorem count_encode (text : List Char) : count (encode text) = text.length := by
  rw [count_eq_length, pieces_eq_map_iff.mpr rfl, List.length_map]

/-! ## Newlines -/

theorem lineBreak_mem_utf8EncodeChar_iff {char : Char} :
    lineBreak ∈ String.utf8EncodeChar char ↔ char = '\n' := by
  have byte : lineBreak.toNat = 10 := rfl
  have newline : '\n'.toNat = 10 := rfl
  rcases exists_utf8EncodeChar_eq char with ⟨first, rest, bytes, begins, tails⟩
  rw [← Char.toNat_inj, bytes, List.mem_cons, ← UInt8.toNat_inj]
  constructor
  · rintro (same | later)
    · omega
    · have tail := tails lineBreak later
      omega
  · intro same
    exact Or.inl (by omega)

/-- The newlines of a text are those of its bytes. -/
theorem count_lineBreak_encode (text : List Char) :
    (encode text).count lineBreak = text.count '\n' := by
  induction text with
  | nil => rfl
  | cons char text inductionHypothesis =>
      rw [encode_cons, List.count_append, inductionHypothesis]
      by_cases newline : char = '\n'
      · rw [newline, List.count_cons_self, Nat.add_comm]
        rfl
      · have absent := mt lineBreak_mem_utf8EncodeChar_iff.mp newline
        rw [List.count_eq_zero_of_not_mem absent, List.count_cons_of_ne newline, Nat.zero_add]

end Utf8

/-! ## The last line of a text -/

/-- What follows the last newline. -/
def openLine (text : List Char) : List Char := text.rtakeWhile (· != '\n')

theorem openLine_concat_newline (text : List Char) : openLine (text ++ ['\n']) = [] :=
  List.rtakeWhile_concat_neg _ _ _ (by decide)

theorem openLine_concat {text : List Char} {char : Char} (goesOn : char ≠ '\n') :
    openLine (text ++ [char]) = openLine text ++ [char] :=
  List.rtakeWhile_concat_pos _ _ _ (bne_iff_ne.mpr goesOn)

theorem openLine_append (text : List Char) {more : List Char} (unbroken : '\n' ∉ more) :
    openLine (text ++ more) = openLine text ++ more := by
  induction more using List.reverseRecOn with
  | nil => rw [List.append_nil, List.append_nil]
  | append_singleton more char inductionHypothesis =>
      rw [List.mem_append, List.mem_singleton, not_or] at unbroken
      rw [← List.append_assoc, openLine_concat (Ne.symm unbroken.2),
        inductionHypothesis unbroken.1, List.append_assoc]

/-- A text is its last line after a newline, or nothing but this line. -/
theorem eq_openLine_or_exists (text : List Char) :
    '\n' ∉ openLine text ∧
      (text = openLine text ∨ ∃ earlier, text = earlier ++ '\n' :: openLine text) := by
  induction text using List.reverseRecOn with
  | nil => exact ⟨List.not_mem_nil, Or.inl rfl⟩
  | append_singleton text char inductionHypothesis =>
      by_cases newline : char = '\n'
      · rw [newline, openLine_concat_newline]
        exact ⟨List.not_mem_nil, Or.inr ⟨text, rfl⟩⟩
      · rw [openLine_concat newline, List.mem_append, List.mem_singleton, not_or]
        refine ⟨⟨inductionHypothesis.1, Ne.symm newline⟩, ?_⟩
        rcases inductionHypothesis.2 with single | ⟨earlier, split⟩
        · exact Or.inl (congrArg (· ++ [char]) single)
        · refine Or.inr ⟨earlier, ?_⟩
          rw [← List.cons_append, ← List.append_assoc, ← split]

/-- The bytes of the last line are the last line of the bytes. -/
theorem lastLine_encode (text : List Char) :
    lastLine (Utf8.encode text) = Utf8.encode (openLine text) := by
  have unbroken {line : List Char} (noNewline : '\n' ∉ line) : lineBreak ∉ Utf8.encode line := by
    intro member
    have counted := List.count_pos_iff.mpr member
    rw [Utf8.count_lineBreak_encode] at counted
    exact noNewline (List.count_pos_iff.mp counted)
  rcases eq_openLine_or_exists text with ⟨noNewline, single | ⟨earlier, split⟩⟩
  · have start := lastLine_append [] (unbroken noNewline)
    rw [← single] at start ⊢
    exact start
  · have broken : lastLine (Utf8.encode earlier ++ [lineBreak]) = [] :=
      List.rtakeWhile_concat_neg _ _ _ (by decide)
    have bytes : Utf8.encode text =
        (Utf8.encode earlier ++ [lineBreak]) ++ Utf8.encode (openLine text) := by
      rw [split, Utf8.encode_append, Utf8.encode_cons, ← split, List.append_assoc]
      rfl
    rw [bytes, lastLine_append _ (unbroken noNewline), broken, List.nil_append]

/-! ## Positions in a text -/

namespace Position

/-- One position comes before another one: its line is above, or it is the same line and
the column is further to the left. -/
def Before (first second : Position) : Prop :=
  first.line < second.line ∨ first.line = second.line ∧ first.column < second.column

/-- The position right after some characters. -/
def afterText (before : List Char) : Position :=
  { line := before.count '\n' + 1, column := (openLine before).length + 1 }

/-- The character in the column and line of a position. -/
def charAt? (text : List Char) (position : Position) : Option Char :=
  (text.splitOn '\n')[(position.line - 1).toNat]?.bind fun chars =>
    chars[(position.column - 1).toNat]?

/-- The position after the bytes of a text is the one after the text. -/
theorem after_encode (before : List Char) : after (Utf8.encode before) = afterText before := by
  rw [after, afterText, Utf8.count_lineBreak_encode, lastLine_encode, Utf8.count_encode]

/-- More characters lead on. -/
theorem afterText_before {before more : List Char} (nonempty : more ≠ []) :
    (afterText before).Before (afterText (before ++ more)) := by
  rw [Before, afterText, afterText, List.count_append]
  by_cases breaks : '\n' ∈ more
  · have above := List.count_pos_iff.mpr breaks
    left
    dsimp only
    omega
  · have longer := List.length_pos_iff.mpr nonempty
    rw [List.count_eq_zero_of_not_mem breaks, openLine_append before breaks, List.length_append]
    right
    dsimp only
    omega

theorem length_splitOn (text : List Char) :
    (text.splitOn '\n').length = text.count '\n' + 1 := by
  induction text with
  | nil => rfl
  | cons char text inductionHypothesis =>
      rw [List.splitOn_cons_eq_if_modifyHead]
      by_cases newline : char = '\n'
      · rw [newline, if_pos (beq_self_eq_true _), List.length_cons, inductionHypothesis,
          List.count_cons_self]
      · rw [if_neg (ne_true_of_eq_false (beq_eq_false_iff_ne.mpr newline)), List.length_modifyHead,
          inductionHypothesis, List.count_cons_of_ne newline]

/-- The line of a place goes on from what is before it. -/
theorem exists_line {before after : List Char} {char : Char} (goesOn : char ≠ '\n') :
    ∃ more, ((before ++ char :: after).splitOn '\n')[before.count '\n']? =
      some (openLine before ++ char :: more) := by
  rcases eq_openLine_or_exists before with ⟨noNewline, lines⟩
  have first : ∃ more others, (openLine before ++ char :: after).splitOn '\n' =
      (openLine before ++ char :: more) :: others := by
    have unbroken {more : List Char} (later : '\n' ∉ more) :
        '\n' ∉ openLine before ++ char :: more := by
      rw [List.mem_append, List.mem_cons, not_or, not_or]
      exact ⟨noNewline, Ne.symm goesOn, later⟩
    by_cases breaks : '\n' ∈ after
    · rcases List.eq_append_cons_of_mem breaks with ⟨more, rest, split, later⟩
      refine ⟨more, rest.splitOn '\n', ?_⟩
      rw [split, ← List.cons_append, ← List.append_assoc]
      exact List.splitOn_append_cons_self_of_not_mem (unbroken later) rest
    · exact ⟨after, [], List.splitOn_eq_singleton (unbroken breaks)⟩
  rcases first with ⟨more, others, line⟩
  refine ⟨more, ?_⟩
  rcases lines with single | ⟨earlier, split⟩
  · rw [← single] at noNewline line ⊢
    rw [line, List.count_eq_zero_of_not_mem noNewline, List.getElem?_cons_zero]
  · have place : before.count '\n' = (earlier.splitOn '\n').length := by
      rw [length_splitOn, split, List.count_append, List.count_cons_self,
        List.count_eq_zero_of_not_mem noNewline]
    have whole : before ++ char :: after =
        earlier ++ '\n' :: (openLine before ++ char :: after) := by
      rw [← List.cons_append, ← List.append_assoc, ← split]
    rw [place, whole, List.splitOn_append_cons_self, line,
      List.getElem?_append_right (Nat.le_refl _), Nat.sub_self, List.getElem?_cons_zero]

/-- A position leads back to the character whose position it is. -/
theorem charAt?_afterText {before after : List Char} {char : Char} (goesOn : char ≠ '\n') :
    charAt? (before ++ char :: after) (afterText before) = some char := by
  rcases exists_line goesOn with ⟨more, line⟩
  rw [charAt?, afterText, Int.add_sub_cancel, Int.add_sub_cancel, Int.toNat_natCast,
    Int.toNat_natCast, line, Option.bind_some, List.getElem?_append_right (Nat.le_refl _),
    Nat.sub_self, List.getElem?_cons_zero]

end Position

namespace ConcreteLabel

/-- On the boundary of two characters a node divides the text into two. -/
theorem exists_parts {source : List UInt8} {text : List Char}
    (valid : Utf8.decode? source = some text) {label : ConcreteLabel}
    (placed : label.IsPlaced source) (boundary : Utf8.IsBoundary source label.start) :
    ∃ before after, text = before ++ after ∧ label.start = (Utf8.encode before).length ∧
      source.take label.start = Utf8.encode before ∧
      source.drop label.start = Utf8.encode after ∧
      label.position source = .afterText before := by
  rw [Utf8.decode?_eq_some_iff] at valid
  rw [valid] at boundary
  rcases Utf8.isBoundary_encode_iff.mp boundary with ⟨before, after, split, start⟩
  have front : source.take label.start = Utf8.encode before := by
    rw [valid, split, Utf8.encode_append, start, List.take_left]
  refine ⟨before, after, split, start, front, ?_, ?_⟩
  · rw [valid, split, Utf8.encode_append, start, List.drop_left]
  · rw [placed.position, front, Position.after_encode]

/-- The position of a node is exact, where `before` and `after` are the parts of the text before the
node and from there on.  Lines and columns count characters, though the node itself only knows of
bytes, and no two places in a text have the same position. -/
structure IsExact (source : List UInt8) (text : List Char) (label : ConcreteLabel)
    (before after : List Char) : Prop where
  whole : text = before ++ after
  front : Utf8.decode? (source.take label.start) = some before
  back : Utf8.decode? (source.drop label.start) = some after
  /-- It counts the newlines before the node and the characters after the last of them. -/
  position : label.position source =
    { line := before.count '\n' + 1, column := (openLine before).length + 1 }
  /-- It leads back to the character with which the node begins. -/
  invertible : ∀ char ∈ after.head?, char ≠ '\n' →
    Position.charAt? text (label.position source) = some char
  /-- A node that begins later has a later position. -/
  increasing : ∀ later : ConcreteLabel, later.IsPlaced source →
    Utf8.IsBoundary source later.start → label.start < later.start →
      (label.position source).Before (later.position source)

/-- In the bytes of a text, every node that begins with a character or at the end has an
exact position. -/
theorem position_isExact {source : List UInt8} {text : List Char}
    (valid : Utf8.decode? source = some text) {label : ConcreteLabel}
    (placed : label.IsPlaced source) (boundary : Utf8.IsBoundary source label.start) :
    ∃ before after, label.IsExact source text before after := by
  rcases exists_parts valid placed boundary with
    ⟨before, after, split, start, front, back, position⟩
  refine ⟨before, after, split, ?_, ?_, position, ?_, ?_⟩
  · exact Utf8.decode?_eq_some_iff.mpr front
  · exact Utf8.decode?_eq_some_iff.mpr back
  · intro char first goesOn
    rcases List.head?_eq_some_iff.mp first with ⟨rest, afterEq⟩
    rw [position, split, afterEq, Position.charAt?_afterText goesOn]
  · intro later laterPlaced laterBoundary further
    rcases exists_parts valid laterPlaced laterBoundary with
      ⟨longer, _, laterSplit, laterStart, _, _, laterPosition⟩
    rw [start, laterStart] at further
    have prefixes := List.prefix_or_prefix_of_prefix (List.prefix_append before after)
      (split ▸ laterSplit ▸ List.prefix_append longer _)
    rcases prefixes with ⟨more, whole⟩ | ⟨more, whole⟩
    · rw [position, laterPosition, ← whole]
      apply Position.afterText_before
      rintro rfl
      rw [← whole, List.append_nil] at further
      exact Nat.lt_irrefl _ further
    · rw [← whole, Utf8.encode_append, List.length_append] at further
      omega

/-- A text with characters of one to four bytes. -/
def mixedText : List Char := ['é', '\n', '€', '😀', 'x']

/-- A node that begins with the last of them. -/
def lastLetter : ConcreteLabel :=
  { type := "identifier", row := 1, column := 7, start := 10, stop := 11 }

theorem position_isExact_lastLetter :
    Utf8.decode? (Utf8.encode mixedText) = some mixedText ∧
      lastLetter.IsPlaced (Utf8.encode mixedText) ∧
      Utf8.IsBoundary (Utf8.encode mixedText) lastLetter.start ∧
      lastLetter.position (Utf8.encode mixedText) = { line := 2, column := 3 } ∧
      Position.charAt? mixedText { line := 2, column := 3 } = some 'x' := by
  have valid : Utf8.decode? (Utf8.encode mixedText) = some mixedText :=
    Utf8.decode?_eq_some_iff.mpr rfl
  have placed : lastLetter.IsPlaced (Utf8.encode mixedText) := by decide +kernel
  have boundary : Utf8.IsBoundary (Utf8.encode mixedText) lastLetter.start :=
    Utf8.isBoundary_encode_iff.mpr ⟨['é', '\n', '€', '😀'], ['x'], rfl, by decide +kernel⟩
  rcases position_isExact valid placed boundary with ⟨before, after, exact⟩
  have front : Utf8.decode? ((Utf8.encode mixedText).take lastLetter.start) =
      some ['é', '\n', '€', '😀'] := by decide +kernel
  have beforeEq : before = ['é', '\n', '€', '😀'] := Option.some.inj (exact.front.symm.trans front)
  have position : lastLetter.position (Utf8.encode mixedText) = { line := 2, column := 3 } := by
    rw [exact.position, beforeEq]
    rfl
  have afterEq : after = ['x'] := by
    have whole : ['é', '\n', '€', '😀'] ++ ['x'] = before ++ after := exact.whole
    rw [beforeEq] at whole
    exact (List.append_cancel_left whole).symm
  have found := exact.invertible 'x' (by rw [afterEq]; rfl) (by decide)
  exact ⟨valid, placed, boundary, position, position ▸ found⟩

end ConcreteLabel

end CallbackLint
