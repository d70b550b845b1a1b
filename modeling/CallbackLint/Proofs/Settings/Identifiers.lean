import CallbackLint.Proofs.Concrete.Naming
import CallbackLint.Proofs.Settings.Names
import Mathlib.Data.List.Nodup

namespace CallbackLint

/-!
# Which values are lists of callback names

A value is accepted if it is missing, or a list of texts each of which is a plain identifier
or one with a single line feed behind it.  The first element that is neither is what is
wrong with a list.  Of repeated names the first one stays where it is.

Plain identifiers have no blanks, so there is a script that is reported for each of them.
The other accepted names end in a blank, and such a name makes no difference to any script.
-/

namespace CallbackName

/-! ## Identifiers -/

/-- A letter of ASCII, the underscore or the dollar sign. -/
def IsLetter (char : Char) : Prop :=
  'A' ≤ char ∧ char ≤ 'Z' ∨ 'a' ≤ char ∧ char ≤ 'z' ∨ char = '_' ∨ char = '$'

/-- A letter or a digit of ASCII. -/
def IsLetterOrDigit (char : Char) : Prop := IsLetter char ∨ '0' ≤ char ∧ char ≤ '9'

/-- A letter and then letters and digits. -/
def IsIdentifier (text : List Char) : Prop :=
  ∃ first rest, text = first :: rest ∧ IsLetter first ∧ ∀ char ∈ rest, IsLetterOrDigit char

/-- An identifier, or an identifier and a line feed. -/
def IsAcceptable (name : String) : Prop :=
  IsIdentifier name.toList ∨ ∃ text, name.toList = text ++ ['\n'] ∧ IsIdentifier text

theorem isStart_iff {char : Char} : isStart char = true ↔ IsLetter char := by
  have alpha : char.isAlpha = (char.isUpper || char.isLower) := rfl
  have upper : char.isUpper = decide ('A' ≤ char ∧ char ≤ 'Z') := rfl
  have lower : char.isLower = (decide ('a' ≤ char) && decide (char ≤ 'z')) := rfl
  simp [isStart, IsLetter, alpha, upper, lower, or_assoc]

theorem isPart_iff {char : Char} : isPart char = true ↔ IsLetterOrDigit char := by
  simp [isPart, IsLetterOrDigit, isStart_iff, Char.isDigit, Char.le_def]

/-- The end of a name is the end of the text or the last line feed. -/
theorem isTail_iff {text : List Char} :
    isTail text = true ↔ (∀ char ∈ text, IsLetterOrDigit char) ∨
      ∃ front, text = front ++ ['\n'] ∧ ∀ char ∈ front, IsLetterOrDigit char := by
  fun_induction isTail text with
  | case1 => simp
  | case2 => simp
  | case3 char rest notLast inductionHypothesis =>
      rw [Bool.and_eq_true, isPart_iff, inductionHypothesis, and_or_left, List.forall_mem_cons]
      apply or_congr_right
      constructor
      · rintro ⟨here, front, rfl, all⟩
        exact ⟨char :: front, rfl, List.forall_mem_cons.mpr ⟨here, all⟩⟩
      · rintro ⟨front, whole, all⟩
        cases front with
        | nil =>
            cases whole
            exact (notLast rfl rfl).elim
        | cons first front =>
            cases whole
            rw [List.forall_mem_cons] at all
            exact ⟨all.1, front, rfl, all.2⟩

theorem isAccepted_iff {name : String} :
    isAccepted name.toList = true ↔ IsAcceptable name := by
  unfold IsAcceptable
  cases name.toList with
  | nil => simp [isAccepted, IsIdentifier]
  | cons first rest =>
      rw [isAccepted, Bool.and_eq_true, isStart_iff, isTail_iff, and_or_left]
      apply or_congr
      · simp [IsIdentifier]
      · constructor
        · rintro ⟨letter, front, rfl, all⟩
          exact ⟨first :: front, rfl, first, front, rfl, letter, all⟩
        · rintro ⟨_, whole, other, front, rfl, letter, all⟩
          cases whole
          exact ⟨letter, front, rfl, all⟩

theorem isBlank_of_isLetterOrDigit {char : Char} (part : IsLetterOrDigit char) :
    isBlank char = false := by
  have between {low high : Char} (visible : 33 ≤ low.toNat ∧ high.toNat < 0x80)
      (first : low ≤ char) (last : char ≤ high) : 33 ≤ char.toNat ∧ char.toNat < 0x80 :=
    ⟨visible.1.trans (UInt32.le_iff_toNat_le.mp first),
      (UInt32.le_iff_toNat_le.mp last).trans_lt visible.2⟩
  have visible : 33 ≤ char.toNat ∧ char.toNat < 0x80 := by
    rcases part with (⟨first, last⟩ | ⟨first, last⟩ | rfl | rfl) | ⟨first, last⟩
    · exact between (by decide) first last
    · exact between (by decide) first last
    · decide
    · decide
    · exact between (by decide) first last
  simp [isBlank]
  omega

theorem IsIdentifier.isBlank_eq_false {text : List Char} (identifier : IsIdentifier text)
    {char : Char} (member : char ∈ text) : isBlank char = false := by
  rcases identifier with ⟨first, rest, rfl, letter, all⟩
  rcases List.mem_cons.mp member with rfl | later
  · exact isBlank_of_isLetterOrDigit (Or.inl letter)
  · exact isBlank_of_isLetterOrDigit (all char later)

/-! ## Lists -/

/-- What is wrong with an element of a list of names. -/
inductive Offends : Datum → NamesFault → Prop
  | notText {item : Datum} (other : ∀ name, item ≠ .text name) : Offends item .notText
  | notAnIdentifier {name : String} (refused : ¬ IsAcceptable name) :
      Offends (.text name) (.notAnIdentifier name)

/-- An element of a list of names with which nothing is wrong. -/
def IsGood (item : Datum) : Prop := ∃ name, item = .text name ∧ IsAcceptable name

theorem read_eq_ok_iff {item : Datum} {name : String} :
    read item = .ok name ↔ item = .text name ∧ IsAcceptable name := by
  cases item with
  | text value =>
      rw [read, ← isAccepted_iff]
      split
      · next accepted =>
        constructor
        · rintro ⟨⟩
          exact ⟨rfl, accepted⟩
        · rintro ⟨⟨⟩, _⟩
          rfl
      · next refused =>
        constructor
        · rintro ⟨⟩
        · rintro ⟨⟨⟩, accepted⟩
          exact (refused accepted).elim
  | _ => simp [read]

theorem read_eq_error_iff {item : Datum} {fault : NamesFault} :
    read item = .error fault ↔ Offends item fault := by
  constructor
  · intro failed
    cases item with
    | text value =>
        rw [read] at failed
        split at failed
        · cases failed
        · next refused =>
            cases failed
            exact .notAnIdentifier fun acceptable => refused (isAccepted_iff.mpr acceptable)
    | _ =>
        cases failed
        exact .notText fun _ impossible => by cases impossible
  · rintro (other | refused)
    · cases item with
      | text value => exact (other value rfl).elim
      | _ => rfl
    · rw [← isAccepted_iff] at refused
      rw [read, if_neg refused]

theorem readAll_of_offends {before : List Datum} (good : ∀ other ∈ before, IsGood other)
    {item : Datum} {fault : NamesFault} (offends : Offends item fault) (after : List Datum) :
    readAll (before ++ item :: after) = .error fault := by
  induction before with
  | nil => rw [List.nil_append, readAll, read_eq_error_iff.mpr offends]
  | cons other before inductionHypothesis =>
      rw [List.forall_mem_cons] at good
      rcases good with ⟨⟨name, isText, acceptable⟩, good⟩
      rw [List.cons_append, readAll, read_eq_ok_iff.mpr ⟨isText, acceptable⟩]
      simp only [inductionHypothesis good]

theorem readAll_of_acceptable {names : List String} (all : ∀ name ∈ names, IsAcceptable name) :
    readAll (names.map .text) = .ok names := by
  have none : rejected? names = none :=
    rejected?_eq_none_iff.mpr fun name member => isAccepted_iff.mpr (all name member)
  rw [readAll_texts, none]

/-- All elements of a list are good, or there is a first one that is not. -/
theorem good_or_offends (items : List Datum) :
    (∃ names : List String, items = names.map .text ∧ ∀ name ∈ names, IsAcceptable name) ∨
      ∃ before item after fault, items = before ++ item :: after ∧
        (∀ other ∈ before, IsGood other) ∧ Offends item fault := by
  induction items with
  | nil => exact Or.inl ⟨[], rfl, fun _ impossible => nomatch impossible⟩
  | cons item rest inductionHypothesis =>
      cases result : read item with
      | error fault =>
          exact Or.inr ⟨[], item, rest, fault, rfl, (fun _ impossible => nomatch impossible),
            read_eq_error_iff.mp result⟩
      | ok name =>
          rcases read_eq_ok_iff.mp result with ⟨rfl, acceptable⟩
          rcases inductionHypothesis with
            ⟨names, rfl, all⟩ | ⟨before, other, after, fault, rfl, good, offends⟩
          · exact Or.inl ⟨name :: names, rfl, List.forall_mem_cons.mpr ⟨acceptable, all⟩⟩
          · exact Or.inr ⟨.text name :: before, other, after, fault, rfl,
              List.forall_mem_cons.mpr ⟨⟨name, rfl, acceptable⟩, good⟩, offends⟩

theorem readAll_eq_ok_iff {items : List Datum} {names : List String} :
    readAll items = .ok names ↔
      items = names.map .text ∧ ∀ name ∈ names, IsAcceptable name := by
  constructor
  · intro result
    rcases good_or_offends items with
      ⟨others, rfl, all⟩ | ⟨before, item, after, fault, rfl, good, offends⟩
    · cases (readAll_of_acceptable all).symm.trans result
      exact ⟨rfl, all⟩
    · cases (readAll_of_offends good offends after).symm.trans result
  · rintro ⟨rfl, all⟩
    exact readAll_of_acceptable all

/-- The first element that is not good decides what is wrong with a list. -/
theorem readAll_eq_error_iff {items : List Datum} {fault : NamesFault} :
    readAll items = .error fault ↔
      ∃ before item after, items = before ++ item :: after ∧ (∀ other ∈ before, IsGood other) ∧
        Offends item fault := by
  constructor
  · intro result
    rcases good_or_offends items with
      ⟨names, rfl, all⟩ | ⟨before, item, after, other, rfl, good, offends⟩
    · cases (readAll_of_acceptable all).symm.trans result
    · cases (readAll_of_offends good offends after).symm.trans result
      exact ⟨before, item, after, rfl, good, offends⟩
  · rintro ⟨before, item, after, rfl, good, offends⟩
    exact readAll_of_offends good offends after

end CallbackName

/-! ## Repetitions -/

/-- Of some names the first occurrence of each is kept, in their order. -/
structure KeepsFirst (names kept : List String) : Prop where
  same : ∀ name, name ∈ kept ↔ name ∈ names
  inOrder : kept.Pairwise fun first second => names.idxOf first < names.idxOf second

namespace KeepsFirst

variable {names kept others : List String}

theorem nodup (keeps : KeepsFirst names kept) : kept.Nodup := by
  apply keeps.inOrder.imp
  rintro first second earlier rfl
  exact Nat.lt_irrefl _ earlier

/-- There is only one way to keep the first occurrences. -/
theorem unique (keeps : KeepsFirst names kept) (keepsToo : KeepsFirst names others) :
    kept = others := by
  have perm : kept.Perm others := by
    apply (List.perm_ext_iff_of_nodup keeps.nodup keepsToo.nodup).mpr
    intro name
    rw [keeps.same, keepsToo.same]
  apply perm.eq_of_pairwise _ keeps.inOrder keepsToo.inOrder
  intro first second _ _ earlier later
  exact (Nat.lt_asymm earlier later).elim

end KeepsFirst

theorem keepsFirst_eraseDups (names : List String) : KeepsFirst names names.eraseDups := by
  refine ⟨fun name => List.mem_eraseDups, ?_⟩
  induction names using List.reverseRecOn with
  | nil => exact List.Pairwise.nil
  | append_singleton front last inductionHypothesis =>
      have inFront {name : String} (member : name ∈ front) :
          (front ++ [last]).idxOf name = front.idxOf name := by
        rw [List.idxOf_append, if_pos member]
      have kept : front.eraseDups.Pairwise fun first second =>
          (front ++ [last]).idxOf first < (front ++ [last]).idxOf second := by
        apply inductionHypothesis.imp_of_mem
        intro first second member memberToo earlier
        rwa [inFront (List.mem_eraseDups.mp member), inFront (List.mem_eraseDups.mp memberToo)]
      rw [List.eraseDups_append]
      by_cases repeated : last ∈ front
      · have nothing : [last].removeAll front = [] := by simp [List.removeAll, repeated]
        rw [nothing, List.eraseDups_nil, List.append_nil]
        exact kept
      · have new : [last].removeAll front = [last] := by simp [List.removeAll, repeated]
        rw [new, List.pairwise_append]
        refine ⟨kept, List.pairwise_singleton _ _, ?_⟩
        intro name member other single
        have earlier := List.mem_eraseDups.mp member
        rw [List.mem_singleton.mp (List.mem_eraseDups.mp single), inFront earlier,
          List.idxOf_append, if_neg repeated, List.idxOf_cons_self, Nat.zero_add]
        exact List.idxOf_lt_length_of_mem earlier

/-! ## Values -/

open CallbackName

/-- What is wrong with a value that is no list of callback names. -/
inductive IsRefused : Datum → NamesFault → Prop
  | notAList {value : Datum} (given : value ≠ .null) (noList : ∀ items, value ≠ .list items) :
      IsRefused value .notAList
  /-- The first bad element decides. -/
  | element {before after : List Datum} {item : Datum} {fault : NamesFault}
      (good : ∀ other ∈ before, IsGood other) (offends : Offends item fault) :
      IsRefused (.list (before ++ item :: after)) fault

theorem readNames_eq_ok_iff {value : Datum} {kept : List String} :
    readNames value = .ok kept ↔
      (value = .null ∧ kept = []) ∨
        ∃ names, value = .list (names.map .text) ∧ (∀ name ∈ names, IsAcceptable name) ∧
          KeepsFirst names kept := by
  constructor
  · intro accepted
    unfold readNames at accepted
    split at accepted
    · cases accepted
      exact Or.inl ⟨rfl, rfl⟩
    · split at accepted
      · next items names result =>
          rcases readAll_eq_ok_iff.mp result with ⟨rfl, all⟩
          cases accepted
          exact Or.inr ⟨names, rfl, all, keepsFirst_eraseDups names⟩
      · cases accepted
    · cases accepted
  · rintro (⟨rfl, rfl⟩ | ⟨names, rfl, all, keeps⟩)
    · rfl
    · rw [keeps.unique (keepsFirst_eraseDups names)]
      simp only [readNames, readAll_of_acceptable all]

theorem readNames_eq_error_iff {value : Datum} {problems : List Problem} :
    readNames value = .error problems ↔
      ∃ fault, problems = [{ fault := .names fault }] ∧ IsRefused value fault := by
  constructor
  · intro refused
    unfold readNames at refused
    split at refused
    · cases refused
    · split at refused
      · cases refused
      · next items fault result =>
          rcases readAll_eq_error_iff.mp result with ⟨before, item, after, rfl, good, offends⟩
          cases refused
          exact ⟨fault, rfl, .element good offends⟩
    · next given noList =>
        cases refused
        exact ⟨.notAList, rfl, .notAList given noList⟩
  · rintro ⟨fault, rfl, refused⟩
    cases refused with
    | notAList given noList =>
        cases value with
        | null => exact (given rfl).elim
        | list items => exact (noList items rfl).elim
        | _ => rfl
    | element good offends =>
        simp only [readNames, readAll_of_offends good offends]
        rfl

namespace Options

theorem read_names (value : Datum) :
    Options.read (.table [("names", value)]) =
      match readNames value with
      | .ok names => .ok { names }
      | .error problems => .error (problems.map (Problem.below (.key "names"))) := by
  have found : Datum.find? "names" [("names", value)] = some value := rfl
  rw [Options.read, Datum.readTable]
  simp only [Datum.readField, found]
  cases readNames value with
  | ok names => rfl
  | error problems => simp [Reading.below, Reading.problems, Datum.unknownKeys]

/-- How options read a value as their names, and what the names are good for.  An accepted name need
not be an identifier: a line feed may follow one, and no script calls anything by such a name. -/
structure ReadsNames (value : Datum) : Prop where
  accepts : ∀ options, Options.read (.table [("names", value)]) = .ok options ↔
    (value = .null ∧ options.names = []) ∨
      ∃ names, value = .list (names.map .text) ∧ (∀ name ∈ names, IsAcceptable name) ∧
        KeepsFirst names options.names
  refuses : ∀ problems, Options.read (.table [("names", value)]) = .error problems ↔
    ∃ fault, problems = [{ way := [.key "names"], fault := .names fault }] ∧
      IsRefused value fault
  /-- Some script is reported for an accepted name that is an identifier. -/
  reportable : ∀ options, Options.read (.table [("names", value)]) = .ok options →
    ∀ name ∈ options.names, IsIdentifier name.toList →
      ∃ script : Script, ∃ place,
        (script.check [name] none).diagnostics = [.missingReturn none place]
  /-- Any other accepted name makes no difference to any script. -/
  idle : ∀ options, Options.read (.table [("names", value)]) = .ok options →
    ∀ name ∈ options.names, ¬ IsIdentifier name.toList →
      ∀ (script : Script) (names : List String) (path : Option String),
        script.check (name :: names) path = script.check names path

theorem isAcceptable_of_read {value : Datum} {options : Options}
    (accepted : readNames value = .ok options.names) {name : String}
    (member : name ∈ options.names) : IsAcceptable name := by
  rcases readNames_eq_ok_iff.mp accepted with ⟨_, none⟩ | ⟨names, _, all, keeps⟩
  · rw [none] at member
    cases member
  · exact all name ((keeps.same name).mp member)

theorem reads_names (value : Datum) : ReadsNames value := by
  have ok options : Options.read (.table [("names", value)]) = .ok options ↔
      readNames value = .ok options.names := by
    rw [read_names]
    cases readNames value with
    | ok names =>
        cases options
        simp
    | error problems => simp
  constructor
  · intro options
    rw [ok, readNames_eq_ok_iff]
  · intro problems
    rw [read_names]
    constructor
    · intro failed
      cases result : readNames value with
      | ok names =>
          rw [result] at failed
          cases failed
      | error found =>
          rw [result] at failed
          rcases readNames_eq_error_iff.mp result with ⟨fault, rfl, refused⟩
          cases failed
          exact ⟨fault, rfl, refused⟩
    · rintro ⟨fault, rfl, refused⟩
      rw [readNames_eq_error_iff.mpr ⟨fault, rfl, refused⟩]
      rfl
  · intro options accepted name _ identifier
    exact Script.exists_reported_of_noBlank fun char inName => identifier.isBlank_eq_false inName
  · intro options accepted name member noIdentifier script names path
    rcases isAcceptable_of_read ((ok options).mp accepted) member with
      identifier | ⟨text, whole, _⟩
    · exact (noIdentifier identifier).elim
    · have last : name.toList.getLast? = some '\n' := by rw [whole, List.getLast?_concat]
      exact script.check_cons_of_blank last (by decide) names path

/-- A name that is accepted and can never match. -/
theorem read_lineFeed :
    Options.read (.table [("names", .list [.text "callback\n"])]) =
        .ok { names := ["callback\n"] } ∧
      ¬ IsIdentifier "callback\n".toList ∧
      ∀ (script : Script) (path : Option String),
        script.check ["callback\n"] path = script.check [] path := by
  have last : "callback\n".toList.getLast? = some '\n' := by decide +kernel
  refine ⟨by decide +kernel, ?_, ?_⟩
  · intro identifier
    have blank := identifier.isBlank_eq_false (List.mem_of_getLast? last)
    cases blank
  · exact fun script path => script.check_cons_of_blank last (by decide) [] path

end Options

end CallbackLint
