import CallbackLint.Command.Arguments
import Mathlib.Data.List.Basic

namespace CallbackLint

/-!
# What the usual command lines ask for

A check is usually asked for by the folder, if it is not the current one, and then by flags in
any order, each with the words that belong to it.  Reading such words sets the folder and does
one flag after the other, so that of two flags of one kind the later counts.  The names of the
flag for callbacks end where the next flag begins.
-/

namespace Command

/-- A flag with the words that belong to it. -/
inductive Part where
  | callbacks (first : String) (more : List String)
  | format (format : Format)
  | verbose
deriving DecidableEq, Repr

namespace Part

def words : Part → List String
  | callbacks first more => "--callbacks" :: first :: more
  | format .text => ["--format", "text"]
  | format .json => ["--format", "json"]
  | verbose => ["-v"]

/-- What a flag changes about what is asked for. -/
def apply (arguments : Arguments) : Part → Arguments
  | callbacks first more => { arguments with callbacks := some (first :: more) }
  | format chosen => { arguments with format := chosen }
  | verbose => { arguments with verbose := true }

/-- The words that belong to a flag, but for the names of formats. -/
def names : Part → List String
  | callbacks first more => first :: more
  | _ => []

end Part

/-- A check as it is usually asked for. -/
structure Invocation where
  root? : Option String := none
  parts : List Part := []
deriving DecidableEq, Repr

namespace Invocation

variable (invocation : Invocation)

def words : List String :=
  "check" :: (invocation.root?.toList ++ invocation.parts.flatMap Part.words)

def arguments : Arguments :=
  invocation.parts.foldl Part.apply { root := invocation.root?.getD "." }

/-- No folder and no name begins with a hyphen, as flags do. -/
def IsPlain : Prop :=
  ∀ text ∈ invocation.root?.toList ++ invocation.parts.flatMap Part.names,
    text.toList.head? ≠ some '-'

instance : Decidable invocation.IsPlain :=
  inferInstanceAs (Decidable (∀ text ∈ invocation.root?.toList ++
    invocation.parts.flatMap Part.names, text.toList.head? ≠ some '-'))

end Invocation

end Command

namespace Arguments

open Command

/-! ## Words -/

theorem ofText_of_plain {text : String} (plain : text.toList.head? ≠ some '-') :
    Word.ofText commandFlags text = .plain text := by
  rw [Word.ofText]
  split
  · next spelled => simp [spelled] at plain
  · rfl

/-- Words that are not the two hyphens are read one by one. -/
theorem readAll_eq {texts : List String} (noHyphens : "--" ∉ texts) :
    Word.readAll commandFlags texts = texts.map (Word.ofText commandFlags) := by
  induction texts with
  | nil => rfl
  | cons text rest inductionHypothesis =>
      simp only [List.mem_cons, not_or] at noHyphens
      rw [Word.readAll, if_neg (Ne.symm noHyphens.1), inductionHypothesis noHyphens.2,
        List.map_cons]

/-- The words of a flag, as they are read. -/
def wordsOf : Part → List Word
  | .callbacks first more =>
    .flag "--callbacks" .callbacks none :: .plain first :: more.map .plain
  | .format .text => [.flag "--format" .format none, .plain "text"]
  | .format .json => [.flag "--format" .format none, .plain "json"]
  | .verbose => [.flag "-v" .verbose none]

theorem map_ofText_words {part : Part}
    (plain : ∀ text ∈ part.names, text.toList.head? ≠ some '-') :
    part.words.map (Word.ofText commandFlags) = wordsOf part := by
  cases part with
  | verbose => rfl
  | format format => cases format <;> rfl
  | callbacks first more =>
      have names : (first :: more).map (Word.ofText commandFlags) = (first :: more).map .plain :=
        List.map_congr_left fun text member => ofText_of_plain (plain text member)
      rw [Part.words, List.map_cons, names]
      rfl

theorem hyphens_not_mem_words {part : Part}
    (plain : ∀ text ∈ part.names, text.toList.head? ≠ some '-') : "--" ∉ part.words := by
  cases part with
  | verbose => decide
  | format format => cases format <;> decide
  | callbacks first more =>
      intro member
      rcases List.mem_cons.mp member with impossible | named
      · exact absurd impossible (by decide)
      · exact plain "--" named (by decide)

/-! ## Reading the words of flags -/

namespace Progress

variable {progress : Progress} {arguments : Arguments}

/-- All words so far are understood, and together they ask for something. -/
def AsksFor (progress : Progress) (arguments : Arguments) : Prop :=
  ∃ settled, progress.settle = .ok settled ∧ settled.arguments = arguments ∧
    settled.strays = []

/-- Plain words that follow a name are further names. -/
theorem takeNames (progress : Progress) (names more : List String) :
    (more.map Word.plain).foldlM (take commandFlags)
        { progress with awaiting := .moreNames names } =
      .ok { progress with awaiting := .moreNames (names ++ more) } := by
  induction more generalizing names with
  | nil => simp [pure, Except.pure]
  | cons name rest inductionHypothesis =>
      have later := inductionHypothesis (names ++ [name])
      rw [List.append_assoc] at later
      rw [List.map_cons, List.foldlM_cons]
      exact later

/-- The words of a flag do what the flag does. -/
theorem AsksFor.takePart (asks : progress.AsksFor arguments) (part : Part) :
    ∃ next, (wordsOf part).foldlM (take commandFlags) progress = .ok next ∧
      next.AsksFor (part.apply arguments) := by
  rcases asks with ⟨settled, settles, rfl, understood⟩
  cases part with
  | verbose =>
      refine ⟨{ settled with
        arguments := { settled.arguments with verbose := true }, awaiting := .nothing }, ?_, ?_⟩
      · simp only [wordsOf, List.foldlM_cons, take, settles]
        rfl
      · exact ⟨_, rfl, rfl, understood⟩
  | format format =>
      refine ⟨{ settled with
        arguments := { settled.arguments with format }, awaiting := .nothing }, ?_, ?_⟩
      · cases format <;>
          · simp only [wordsOf, List.foldlM_cons, take, settles]
            rfl
      · exact ⟨_, rfl, rfl, understood⟩
  | callbacks first more =>
      refine ⟨{ settled with awaiting := .moreNames (first :: more) }, ?_, ?_⟩
      · simp only [wordsOf, List.foldlM_cons, take, settles]
        exact takeNames settled [first] more
      · exact ⟨_, rfl, rfl, understood⟩

theorem AsksFor.takeParts (asks : progress.AsksFor arguments) (parts : List Part) :
    ∃ next, (parts.flatMap wordsOf).foldlM (take commandFlags) progress = .ok next ∧
      next.AsksFor (parts.foldl Part.apply arguments) := by
  induction parts generalizing progress arguments with
  | nil => exact ⟨progress, rfl, asks⟩
  | cons part rest inductionHypothesis =>
      -- What a flag leaves unsettled, such as its names, the next word settles.
      rcases asks.takePart part with ⟨between, taken, asksToo⟩
      rcases inductionHypothesis asksToo with ⟨next, later, asksFor⟩
      refine ⟨next, ?_, asksFor⟩
      rw [List.flatMap_cons, List.foldlM_append, taken]
      exact later

end Progress

/-! ## The whole command line -/

theorem ambiguity?_eq_none (root? : Option String) (parts : List Part) :
    ambiguity? (root?.toList.map .plain ++ parts.flatMap wordsOf) = none := by
  rw [ambiguity?, List.findSome?_eq_none_iff]
  intro word member
  rcases List.mem_append.mp member with inRoot | inParts
  · rcases List.mem_map.mp inRoot with ⟨text, _, rfl⟩
    rfl
  · rcases List.mem_flatMap.mp inParts with ⟨part, _, inPart⟩
    rcases part with ⟨first, more⟩ | chosen | _
    · simp only [wordsOf, List.mem_cons, List.mem_map] at inPart
      rcases inPart with rfl | rfl | ⟨name, _, rfl⟩ <;> rfl
    · cases chosen <;> simp only [wordsOf, List.mem_cons, List.not_mem_nil, or_false] at inPart <;>
        rcases inPart with rfl | rfl <;> rfl
    · rw [List.mem_singleton.mp inPart]

theorem readAll_words {invocation : Invocation} (plain : invocation.IsPlain) :
    Word.readAll commandFlags (invocation.root?.toList ++ invocation.parts.flatMap Part.words) =
      invocation.root?.toList.map .plain ++ invocation.parts.flatMap wordsOf := by
  rw [Invocation.IsPlain, List.forall_mem_append] at plain
  have ofPart : ∀ part ∈ invocation.parts, ∀ text ∈ part.names, text.toList.head? ≠ some '-' :=
    fun part member text named => plain.2 text (List.mem_flatMap.mpr ⟨part, member, named⟩)
  have noHyphens : "--" ∉ invocation.root?.toList ++ invocation.parts.flatMap Part.words := by
    intro member
    rcases List.mem_append.mp member with inRoot | inParts
    · exact plain.1 "--" inRoot (by decide)
    · rcases List.mem_flatMap.mp inParts with ⟨part, among, inPart⟩
      exact hyphens_not_mem_words (ofPart part among) inPart
  rw [readAll_eq noHyphens, List.map_append, List.map_flatMap,
    List.map_congr_left fun text member => ofText_of_plain (plain.1 text member),
    List.flatMap_congr fun part member => map_ofText_words (ofPart part member)]

/-- The words of an invocation ask for a check with its arguments. -/
theorem read_invocation (invocation : Invocation) (plain : invocation.IsPlain) :
    read invocation.words = .check invocation.arguments := by
  have begun : ∃ progress, (invocation.root?.toList.map Word.plain).foldlM
        (Progress.take commandFlags) {} = .ok progress ∧
      progress.AsksFor { root := invocation.root?.getD "." } := by
    cases invocation.root? with
    | none => exact ⟨{}, rfl, _, rfl, rfl, rfl⟩
    | some text => exact ⟨_, rfl, _, rfl, rfl, rfl⟩
  rcases begun with ⟨progress, taken, asks⟩
  rcases asks.takeParts invocation.parts with ⟨last, takenToo, settled, settles, asked, understood⟩
  have command : readCommand (invocation.root?.toList ++ invocation.parts.flatMap Part.words) =
      .ok (invocation.arguments, []) := by
    simp only [readCommand, readAll_words plain, ambiguity?_eq_none, List.foldlM_append, taken]
    simp only [bind, Except.bind, takenToo, settles, asked, understood]
    rfl
  have word : Word.ofText programFlags "check" = .plain "check" := rfl
  rw [read, Invocation.words, readAfter, if_neg (by decide), word]
  simp only [dispatch, command]
  rfl

end Arguments

end CallbackLint
