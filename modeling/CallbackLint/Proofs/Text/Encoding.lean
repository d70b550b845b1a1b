import CallbackLint.Proofs.Text.Utf8

namespace CallbackLint

namespace Utf8

/-!
# Texts and their bytes

A text has one sequence of bytes, that of its characters one after the other, and reading
those bytes gives the text back.  Other bytes are no text.

The reader goes byte by byte and knows, of a character that is still to be completed, only
between which bounds the next byte must be.  `Spells` is the table of the well-formed
sequences instead: it has the bytes and the code of the character side by side.  The bounds
of the reader are what the table requires, so it settles both directions.
-/

/-- The bytes of a text. -/
def encode (text : List Char) : List UInt8 := text.flatMap String.utf8EncodeChar

/-- A byte that goes on with a character. -/
abbrev IsTail (byte : UInt8) : Prop := 0x80 ≤ byte.toNat ∧ byte.toNat < 0xC0

/-- Some bytes spell the character with a given code.  Each length of a sequence has the codes
that do not fit into a shorter one, and no sequence has a surrogate. -/
inductive Spells : List UInt8 → Nat → Prop
  | one {first : UInt8} {code : Nat} (lead : first.toNat < 0x80) (sum : code = first.toNat) :
      Spells [first] code
  | two {first second : UInt8} {code : Nat}
      (lead : 0xC2 ≤ first.toNat ∧ first.toNat < 0xE0) (secondTail : IsTail second)
      (sum : code = (first.toNat - 0xC0) * 64 + (second.toNat - 0x80)) :
      Spells [first, second] code
  | three {first second third : UInt8} {code : Nat}
      (lead : 0xE0 ≤ first.toNat ∧ first.toNat < 0xF0) (secondTail : IsTail second)
      (thirdTail : IsTail third)
      (sum : code =
        ((first.toNat - 0xE0) * 64 + (second.toNat - 0x80)) * 64 + (third.toNat - 0x80))
      (long : 0x800 ≤ code) (real : code < 0xD800 ∨ 0xE000 ≤ code) :
      Spells [first, second, third] code
  | four {first second third fourth : UInt8} {code : Nat}
      (lead : 0xF0 ≤ first.toNat ∧ first.toNat < 0xF5) (secondTail : IsTail second)
      (thirdTail : IsTail third) (fourthTail : IsTail fourth)
      (sum : code =
        (((first.toNat - 0xF0) * 64 + (second.toNat - 0x80)) * 64 + (third.toNat - 0x80)) * 64 +
          (fourth.toNat - 0x80))
      (long : 0x10000 ≤ code) (real : code < 0x110000) :
      Spells [first, second, third, fourth] code

/-! ## Characters -/

theorem Spells.isValidChar {bytes : List UInt8} {code : Nat} (spells : Spells bytes code) :
    code.isValidChar := by
  unfold Nat.isValidChar
  cases spells <;> omega

theorem ofNat_eq_iff {code : Nat} {char : Char} (valid : code.isValidChar) :
    Char.ofNat code = char ↔ char.toNat = code := by
  have code_eq : (Char.ofNat code).toNat = code := by
    unfold Char.ofNat
    rw [dif_pos valid]
    rfl
  rw [← Char.toNat_inj, code_eq, eq_comm]

theorem eq_ofNat_iff {byte : UInt8} {code : Nat} (small : code < 256) :
    byte = UInt8.ofNat code ↔ byte.toNat = code := by
  rw [← UInt8.toNat_inj, UInt8.toNat_ofNat_of_lt' small]

/-- A character is spelled by its own bytes and by no others. -/
theorem spells_iff {bytes : List UInt8} {char : Char} :
    Spells bytes char.toNat ↔ bytes = String.utf8EncodeChar char := by
  have valid : char.toNat.isValidChar := char.valid
  have size : char.val.toNat = char.toNat := rfl
  unfold Nat.isValidChar at valid
  simp only [String.utf8EncodeChar, size]
  generalize char.toNat = code at valid
  constructor
  · intro spells
    cases spells with
    | one lead sum =>
        rw [if_pos (by omega), sum, UInt8.ofNat_toNat]
    | two lead secondTail sum =>
        rw [if_neg (by omega), if_pos (by omega)]
        simp only [List.cons.injEq, and_true]
        rw [eq_ofNat_iff (by omega), eq_ofNat_iff (by omega)]
        omega
    | three lead secondTail thirdTail sum long real =>
        rw [if_neg (by omega), if_neg (by omega), if_pos (by omega)]
        simp only [List.cons.injEq, and_true]
        rw [eq_ofNat_iff (by omega), eq_ofNat_iff (by omega), eq_ofNat_iff (by omega)]
        omega
    | four lead secondTail thirdTail fourthTail sum long real =>
        rw [if_neg (by omega), if_neg (by omega), if_neg (by omega)]
        simp only [List.cons.injEq, and_true]
        rw [eq_ofNat_iff (by omega), eq_ofNat_iff (by omega), eq_ofNat_iff (by omega),
          eq_ofNat_iff (by omega)]
        omega
  · intro encoded
    rw [encoded]
    have toNat_of {code : Nat} (small : code < 256) : (UInt8.ofNat code).toNat = code :=
      UInt8.toNat_ofNat_of_lt' small
    split
    · have first := toNat_of (show code < 256 by omega)
      exact .one (by omega) (by omega)
    · split
      · have first := toNat_of (show code / 64 % 32 + 192 < 256 by omega)
        have second := toNat_of (show code % 64 + 128 < 256 by omega)
        exact .two (by omega) (by omega) (by omega)
      · have inner := toNat_of (show code / 64 % 64 + 128 < 256 by omega)
        have last := toNat_of (show code % 64 + 128 < 256 by omega)
        split
        · have first := toNat_of (show code / 4096 % 16 + 224 < 256 by omega)
          exact .three (by omega) (by omega) (by omega) (by omega) (by omega) (by omega)
        · have first := toNat_of (show code / 262144 % 8 + 240 < 256 by omega)
          have second := toNat_of (show code / 4096 % 64 + 128 < 256 by omega)
          exact .four (by omega) (by omega) (by omega) (by omega) (by omega) (by omega) (by omega)

/-! ## First bytes -/

section Pieces

variable {byte : UInt8} {bytes rest : List UInt8} {char : Char} {others : List Piece}

theorem start_ascii (ascii : byte.toNat < 0x80) :
    start byte = .inl (.char (Char.ofNat byte.toNat)) := by
  unfold start
  rw [if_pos (UInt8.lt_iff_toNat_lt.mpr ascii)]

theorem start_stray (stray : 0x80 ≤ byte.toNat ∧ byte.toNat < 0xC2 ∨ 0xF5 ≤ byte.toNat) :
    start byte = .inl (.invalid 1) := by
  unfold start
  simp only [UInt8.lt_iff_toNat_lt, ← UInt8.toNat_inj, UInt8.reduceToNat]
  rw [if_neg (by omega)]
  split
  · rfl
  · rw [if_neg (by omega), if_neg (by omega), if_neg (by omega), if_neg (by omega),
      if_neg (by omega), if_neg (by omega), if_neg (by omega)]

theorem start_two (lead : 0xC2 ≤ byte.toNat ∧ byte.toNat < 0xE0) :
    start byte = .inr ⟨byte.toNat - 0xC0, 1, 1, 0x80, 0xBF⟩ := by
  unfold start
  simp only [UInt8.lt_iff_toNat_lt, UInt8.reduceToNat]
  rw [if_neg (by omega), if_neg (by omega), if_pos lead.2]

/-- The bounds of the second byte keep out the codes of shorter sequences and surrogates. -/
theorem start_three (lead : 0xE0 ≤ byte.toNat ∧ byte.toNat < 0xF0) :
    ∃ low high : UInt8, start byte = .inr ⟨byte.toNat - 0xE0, 2, 1, low, high⟩ ∧
      ∀ second : UInt8, low ≤ second ∧ second ≤ high ↔
        IsTail second ∧ 0x20 ≤ (byte.toNat - 0xE0) * 64 + (second.toNat - 0x80) ∧
          ((byte.toNat - 0xE0) * 64 + (second.toNat - 0x80) < 0x360 ∨
            0x380 ≤ (byte.toNat - 0xE0) * 64 + (second.toNat - 0x80)) := by
  unfold start
  simp only [UInt8.lt_iff_toNat_lt, ← UInt8.toNat_inj, UInt8.reduceToNat]
  rw [if_neg (by omega), if_neg (by omega), if_neg (by omega)]
  split
  · next least =>
      refine ⟨_, _, by rw [least], fun second => ?_⟩
      simp only [UInt8.le_iff_toNat_le, UInt8.reduceToNat]
      omega
  · split
    · next surrogates =>
        refine ⟨_, _, by rw [surrogates], fun second => ?_⟩
        simp only [UInt8.le_iff_toNat_le, UInt8.reduceToNat]
        omega
    · rw [if_pos lead.2]
      refine ⟨_, _, rfl, fun second => ?_⟩
      simp only [UInt8.le_iff_toNat_le, UInt8.reduceToNat]
      omega

/-- The bounds of the second byte keep out the codes of shorter sequences and those that are
too great. -/
theorem start_four (lead : 0xF0 ≤ byte.toNat ∧ byte.toNat < 0xF5) :
    ∃ low high : UInt8, start byte = .inr ⟨byte.toNat - 0xF0, 3, 1, low, high⟩ ∧
      ∀ second : UInt8, low ≤ second ∧ second ≤ high ↔
        IsTail second ∧ 0x10 ≤ (byte.toNat - 0xF0) * 64 + (second.toNat - 0x80) ∧
          (byte.toNat - 0xF0) * 64 + (second.toNat - 0x80) < 0x110 := by
  unfold start
  simp only [UInt8.lt_iff_toNat_lt, ← UInt8.toNat_inj, UInt8.reduceToNat]
  rw [if_neg (by omega), if_neg (by omega), if_neg (by omega), if_neg (by omega),
    if_neg (by omega), if_neg (by omega)]
  split
  · next least =>
      refine ⟨_, _, by rw [least], fun second => ?_⟩
      simp only [UInt8.le_iff_toNat_le, UInt8.reduceToNat]
      omega
  · split
    · refine ⟨_, _, rfl, fun second => ?_⟩
      simp only [UInt8.le_iff_toNat_le, UInt8.reduceToNat]
      omega
    · have greatest : byte.toNat = 0xF4 := by omega
      rw [if_pos greatest]
      refine ⟨_, _, by rw [greatest], fun second => ?_⟩
      simp only [UInt8.le_iff_toNat_le, UInt8.reduceToNat]
      omega

/-! ## One character -/

theorem continuedBy_iff {pending : Pending} :
    pending.continuedBy byte = true ↔ pending.low ≤ byte ∧ byte ≤ pending.high := by
  simp [Pending.continuedBy]

theorem isTail_iff : 0x80 ≤ byte ∧ byte ≤ 0xBF ↔ IsTail byte := by
  simp only [UInt8.le_iff_toNat_le, UInt8.reduceToNat]
  omega

theorem piecesAfter_nil_ne {pending : Pending} :
    piecesAfter (some pending) [] ≠ .char char :: others := by
  simp [piecesAfter]

/-- The last byte of a pending character. -/
theorem piecesAfter_last_iff {code taken : Nat} {low high : UInt8} :
    piecesAfter (some ⟨code, 1, taken, low, high⟩) (byte :: rest) = .char char :: others ↔
      (low ≤ byte ∧ byte ≤ high) ∧
        Char.ofNat (code * 64 + (byte.toNat - 0x80)) = char ∧ pieces rest = others := by
  simp only [piecesAfter, continuedBy_iff, Pending.extend]
  split
  · next fits => simp [fits, pieces]
  · next breaksOff => simp [breaksOff]

/-- A byte of a pending character that is not its last one. -/
theorem piecesAfter_inner_iff {code missing taken : Nat} {low high : UInt8} :
    piecesAfter (some ⟨code, missing + 2, taken, low, high⟩) (byte :: rest) =
        .char char :: others ↔
      (low ≤ byte ∧ byte ≤ high) ∧
        piecesAfter (some ⟨code * 64 + (byte.toNat - 0x80), missing + 1, taken + 1, 0x80, 0xBF⟩)
          rest = .char char :: others := by
  simp only [piecesAfter, continuedBy_iff, Pending.extend]
  split
  · next fits => simp [fits]
  · next breaksOff => simp [breaksOff]

theorem pieces_cons (byte : UInt8) (rest : List UInt8) :
    pieces (byte :: rest) =
      match start byte with
      | .inl piece => piece :: pieces rest
      | .inr pending => piecesAfter (some pending) rest :=
  rfl

theorem pieces_ascii_iff (lead : byte.toNat < 0x80) :
    pieces (byte :: rest) = .char char :: others ↔
      Spells [byte] char.toNat ∧ pieces rest = others := by
  have valid : byte.toNat.isValidChar := by
    unfold Nat.isValidChar
    omega
  simp only [pieces_cons, start_ascii lead, List.cons.injEq, Piece.char.injEq, ofNat_eq_iff valid]
  apply and_congr_left
  rintro -
  constructor
  · exact .one lead
  · rintro ⟨⟩
    assumption

theorem pieces_two_iff (lead : 0xC2 ≤ byte.toNat ∧ byte.toNat < 0xE0) :
    pieces (byte :: rest) = .char char :: others ↔
      ∃ second tail, rest = second :: tail ∧ Spells [byte, second] char.toNat ∧
        pieces tail = others := by
  rw [pieces_cons, start_two lead]
  rcases rest with _ | ⟨second, tail⟩
  · simp [piecesAfter_nil_ne]
  simp only [piecesAfter_last_iff, isTail_iff]
  constructor
  · rintro ⟨secondTail, sum, rfl⟩
    rw [ofNat_eq_iff (by unfold Nat.isValidChar; omega)] at sum
    exact ⟨_, _, rfl, .two lead secondTail sum, rfl⟩
  · rintro ⟨_, _, ⟨rfl, rfl⟩, spells, rfl⟩
    have valid := spells.isValidChar
    cases spells with
    | two _ secondTail sum => exact ⟨secondTail, (ofNat_eq_iff (sum ▸ valid)).mpr sum, rfl⟩

theorem pieces_three_iff (lead : 0xE0 ≤ byte.toNat ∧ byte.toNat < 0xF0) :
    pieces (byte :: rest) = .char char :: others ↔
      ∃ second third tail, rest = second :: third :: tail ∧
        Spells [byte, second, third] char.toNat ∧ pieces tail = others := by
  rcases start_three lead with ⟨low, high, begun, fits⟩
  rw [pieces_cons, begun]
  rcases rest with _ | ⟨second, _ | ⟨third, tail⟩⟩
  · simp [piecesAfter_nil_ne]
  · simp [piecesAfter_inner_iff, piecesAfter_nil_ne]
  simp only [piecesAfter_inner_iff, Nat.zero_add, piecesAfter_last_iff, isTail_iff, fits]
  constructor
  · rintro ⟨⟨secondTail, long, real⟩, thirdTail, sum, rfl⟩
    rw [ofNat_eq_iff (by unfold Nat.isValidChar; omega)] at sum
    exact ⟨_, _, _, rfl, .three lead secondTail thirdTail sum (by omega) (by omega), rfl⟩
  · rintro ⟨_, _, _, ⟨rfl, rfl⟩, spells, rfl⟩
    have valid := spells.isValidChar
    cases spells with
    | three _ secondTail thirdTail sum long real =>
        exact ⟨⟨secondTail, by omega, by omega⟩, thirdTail,
          (ofNat_eq_iff (sum ▸ valid)).mpr sum, rfl⟩

theorem pieces_four_iff (lead : 0xF0 ≤ byte.toNat ∧ byte.toNat < 0xF5) :
    pieces (byte :: rest) = .char char :: others ↔
      ∃ second third fourth tail, rest = second :: third :: fourth :: tail ∧
        Spells [byte, second, third, fourth] char.toNat ∧ pieces tail = others := by
  rcases start_four lead with ⟨low, high, begun, fits⟩
  rw [pieces_cons, begun]
  rcases rest with _ | ⟨second, _ | ⟨third, _ | ⟨fourth, tail⟩⟩⟩
  · simp [piecesAfter_nil_ne]
  · simp [piecesAfter_inner_iff, piecesAfter_nil_ne]
  · simp [piecesAfter_inner_iff, piecesAfter_nil_ne]
  simp only [piecesAfter_inner_iff, Nat.zero_add, Nat.reduceAdd, piecesAfter_last_iff, isTail_iff,
    fits]
  constructor
  · rintro ⟨⟨secondTail, long, real⟩, thirdTail, fourthTail, sum, rfl⟩
    rw [ofNat_eq_iff (by unfold Nat.isValidChar; omega)] at sum
    exact ⟨_, _, _, _, rfl,
      .four lead secondTail thirdTail fourthTail sum (by omega) (by omega), rfl⟩
  · rintro ⟨_, _, _, _, ⟨rfl, rfl⟩, spells, rfl⟩
    have valid := spells.isValidChar
    cases spells with
    | four _ secondTail thirdTail fourthTail sum long real =>
        exact ⟨⟨secondTail, by omega, by omega⟩, thirdTail, fourthTail,
          (ofNat_eq_iff (sum ▸ valid)).mpr sum, rfl⟩

/-- The first piece of some bytes is a character exactly if they begin with its spelling. -/
theorem pieces_eq_cons_iff :
    pieces bytes = .char char :: others ↔
      ∃ front tail, bytes = front ++ tail ∧ Spells front char.toNat ∧ pieces tail = others := by
  constructor
  · intro read
    rcases bytes with _ | ⟨byte, rest⟩
    · cases read
    by_cases ascii : byte.toNat < 0x80
    · rcases (pieces_ascii_iff ascii).mp read with ⟨spells, others_eq⟩
      exact ⟨_, rest, rfl, spells, others_eq⟩
    by_cases two : 0xC2 ≤ byte.toNat ∧ byte.toNat < 0xE0
    · rcases (pieces_two_iff two).mp read with ⟨_, tail, rfl, spells, others_eq⟩
      exact ⟨_, tail, rfl, spells, others_eq⟩
    by_cases three : 0xE0 ≤ byte.toNat ∧ byte.toNat < 0xF0
    · rcases (pieces_three_iff three).mp read with ⟨_, _, tail, rfl, spells, others_eq⟩
      exact ⟨_, tail, rfl, spells, others_eq⟩
    by_cases four : 0xF0 ≤ byte.toNat ∧ byte.toNat < 0xF5
    · rcases (pieces_four_iff four).mp read with ⟨_, _, _, tail, rfl, spells, others_eq⟩
      exact ⟨_, tail, rfl, spells, others_eq⟩
    rw [pieces_cons, start_stray (by omega)] at read
    cases read
  · rintro ⟨front, tail, rfl, spells, others_eq⟩
    have spelled := spells
    cases spells with
    | one lead => exact (pieces_ascii_iff lead).mpr ⟨spelled, others_eq⟩
    | two lead => exact (pieces_two_iff lead).mpr ⟨_, tail, rfl, spelled, others_eq⟩
    | three lead => exact (pieces_three_iff lead).mpr ⟨_, _, tail, rfl, spelled, others_eq⟩
    | four lead => exact (pieces_four_iff lead).mpr ⟨_, _, _, tail, rfl, spelled, others_eq⟩

end Pieces

/-! ## Texts -/

@[simp]
theorem encode_nil : encode [] = [] :=
  rfl

@[simp]
theorem encode_cons (char : Char) (text : List Char) :
    encode (char :: text) = String.utf8EncodeChar char ++ encode text :=
  rfl

/-- The pieces of some bytes are the characters of a text exactly if they are its bytes. -/
theorem pieces_eq_map_iff {bytes : List UInt8} {text : List Char} :
    pieces bytes = text.map .char ↔ bytes = encode text := by
  induction text generalizing bytes with
  | nil =>
      rcases bytes with _ | ⟨byte, rest⟩
      · simp [pieces, piecesAfter]
      · have some_piece : 0 < (pieces (byte :: rest)).length := by
          rw [pieces_cons]
          cases start byte with
          | inl piece => exact Nat.succ_pos _
          | inr pending => exact length_piecesAfter_pos pending rest
        simp [List.ne_nil_of_length_pos some_piece]
  | cons char text inductionHypothesis =>
      rw [List.map_cons, pieces_eq_cons_iff, encode_cons]
      constructor
      · rintro ⟨front, tail, rfl, spells, rest⟩
        rw [spells_iff.mp spells, inductionHypothesis.mp rest]
      · rintro rfl
        exact ⟨_, _, rfl, spells_iff.mpr rfl, inductionHypothesis.mpr rfl⟩

theorem mapM_char?_eq_some_iff {found : List Piece} {text : List Char} :
    found.mapM Piece.char? = some text ↔ found = text.map .char := by
  induction found generalizing text with
  | nil => simp [eq_comm]
  | cons piece rest inductionHypothesis =>
      cases piece with
      | invalid => cases text <;> simp [Piece.char?]
      | char value =>
          cases text with
          | nil => simp [Piece.char?, Option.bind_eq_some_iff]
          | cons char text =>
              rw [List.map_cons, List.cons.injEq, and_comm, ← inductionHypothesis]
              simp [Piece.char?, Option.bind_eq_some_iff]

/-- Bytes are a text exactly if they are the bytes of that text. -/
theorem decode?_eq_some_iff {bytes : List UInt8} {text : List Char} :
    decode? bytes = some text ↔ bytes = encode text := by
  unfold decode?
  rw [mapM_char?_eq_some_iff, pieces_eq_map_iff]

theorem decode?_eq_none_iff {bytes : List UInt8} :
    decode? bytes = none ↔ ∀ text, bytes ≠ encode text := by
  simp [Option.eq_none_iff_forall_ne_some, decode?_eq_some_iff]

/-- Nothing is dropped from the bytes of a text. -/
@[simp]
theorem decodeDropping_encode (text : List Char) : decodeDropping (encode text) = text := by
  rw [decodeDropping, pieces_eq_map_iff.mpr rfl]
  simp [List.filterMap_map, Function.comp_def, Piece.char?]

end Utf8

end CallbackLint
