import CallbackLint.Proofs.Settings.Identifiers

namespace CallbackLint

/-!
# Reading settings from their own table

Settings can be read in many ways: keys may be missing or spelled in two ways, truth values
may be words or numbers, names may be repeated.  The table that settings are dumped to has
none of that, and it reads as the settings that were dumped.

For settings as such this is not so, since names that are not accepted, or are repeated,
would not come back.  It holds of the settings that come from reading, because reading leaves
only names that are accepted, once each.
-/

namespace Datum

/-! ## Fields and keys -/

variable {α : Type} {key : String} {default result : α} {reader : Datum → Reading α}
  {entries : List (String × Datum)}

/-- What a field is read as: what is under its key, or the default. -/
theorem readField_eq_ok_iff :
    readField key default reader entries = .ok result ↔
      (∃ value, find? key entries = some value ∧ reader value = .ok result) ∨
        (find? key entries = none ∧ result = default) := by
  rw [readField]
  cases find? key entries with
  | none => simp only [Except.ok.injEq, reduceCtorEq, false_and, exists_false, false_or, true_and,
      eq_comm]
  | some value =>
      simp only [Option.some.injEq, exists_eq_left', reduceCtorEq, false_and, or_false]
      cases reader value <;> simp [Reading.below]

theorem unknownKeys_eq_nil_iff {known : List String} :
    unknownKeys known entries = [] ↔ ∀ entry ∈ entries, entry.1 ∈ known := by
  simp [unknownKeys]

/-- A record is read from the entries of a table, and from nothing else. -/
theorem readTable_then_iff {record : Record} {value : Datum}
    {next : List (String × Datum) → Reading α} :
    (match value.readTable record with
      | .error problems => Except.error problems
      | .ok entries => next entries) = Except.ok result ↔
      ∃ entries, value = .table entries ∧ next entries = .ok result := by
  cases value <;> simp [readTable, Reading.fail]

/-- A value is a table with no keys but the given ones. -/
def IsTableOf (known : List String) (value : Datum) : Prop :=
  ∃ entries, value = .table entries ∧ ∀ entry ∈ entries, entry.1 ∈ known

/-- What a value has under a key, if it is a table. -/
def field? (key : String) : Datum → Option Datum
  | table entries => find? key entries
  | _ => none

theorem find?_eq_none_of_notMem {known : List String}
    (among : ∀ entry ∈ entries, entry.1 ∈ known) (other : key ∉ known) :
    find? key entries = none := by
  rw [find?, Option.map_eq_none_iff, List.find?_eq_none]
  intro entry member same
  exact other (eq_of_beq same ▸ among entry member)

theorem readTextsFrom_texts (place : Nat) (texts : List String) :
    readTextsFrom place (texts.map .text) = .ok texts := by
  induction texts generalizing place with
  | nil => rfl
  | cons text rest inductionHypothesis =>
      rw [List.map_cons, readTextsFrom, inductionHypothesis]

end Datum

open CallbackName Datum

namespace Options

/-! ## The options of the rule -/

/-- Options as a table that reads as the same options. -/
def dump (options : Options) : Datum :=
  .table [("names", .list (options.names.map .text))]

/-- Options that reading can lead to: each name is accepted, and none is repeated. -/
structure IsReadable (options : Options) : Prop where
  acceptable : ∀ name ∈ options.names, IsAcceptable name
  distinct : options.names.Nodup

theorem read_eq_ok_iff {value : Datum} {options : Options} :
    Options.read value = .ok options ↔
      ∃ entries, value = .table entries ∧ (∀ entry ∈ entries, entry.1 ∈ ["names"]) ∧
        readField "names" ({} : Options).names readNames entries = .ok options.names := by
  refine readTable_then_iff.trans (exists_congr fun entries => and_congr_right fun _ => ?_)
  dsimp only
  split
  · next names unknown named noneUnknown =>
      rw [named, ← unknownKeys_eq_nil_iff, noneUnknown]
      cases options
      simp
  · next names unknown notBoth =>
      refine ⟨nofun, ?_⟩
      rintro ⟨known, named⟩
      exact (notBoth _ named (unknownKeys_eq_nil_iff.mpr known)).elim

theorem isReadable_default : IsReadable {} where
  acceptable := by
    intro name member
    rw [List.mem_singleton.mp member]
    exact isAccepted_iff.mp (by decide)
  distinct := List.nodup_singleton _

theorem keepsFirst_of_nodup {names : List String} (distinct : names.Nodup) :
    KeepsFirst names names where
  same := fun _ => Iff.rfl
  inOrder := by
    rw [List.pairwise_iff_getElem]
    intro first second _ _ earlier
    rwa [distinct.idxOf_getElem, distinct.idxOf_getElem]

/-- Names are read as names that are accepted, once each. -/
theorem isReadable_of_readNames {value : Datum} {options : Options}
    (accepted : readNames value = .ok options.names) : options.IsReadable where
  acceptable := fun _ => isAcceptable_of_read accepted
  distinct := by
    rcases readNames_eq_ok_iff.mp accepted with ⟨_, none⟩ | ⟨names, _, _, keeps⟩
    · rw [none]
      exact List.nodup_nil
    · exact keeps.nodup

theorem isReadable_of_read {value : Datum} {options : Options}
    (accepted : Options.read value = .ok options) : options.IsReadable := by
  rcases read_eq_ok_iff.mp accepted with ⟨entries, _, _, named⟩
  rcases readField_eq_ok_iff.mp named with ⟨names, _, found⟩ | ⟨_, isDefault⟩
  · exact isReadable_of_readNames found
  · exact ⟨isDefault ▸ isReadable_default.acceptable, isDefault ▸ isReadable_default.distinct⟩

/-- Options come back from their own table exactly if reading can lead to them. -/
theorem read_dump_iff {options : Options} :
    Options.read options.dump = .ok options ↔ options.IsReadable := by
  refine ⟨isReadable_of_read, fun readable => ?_⟩
  have names : readNames (.list (options.names.map .text)) = .ok options.names :=
    readNames_eq_ok_iff.mpr
      (Or.inr ⟨options.names, rfl, readable.acceptable, keepsFirst_of_nodup readable.distinct⟩)
  rw [dump, read_names, names]

/-! ## The tables of the rules -/

theorem readAmongRules_eq_ok_iff {value : Datum} {options : Options} :
    readAmongRules value = .ok options ↔
      ∃ entries, value = .table entries ∧
        (∀ entry ∈ entries, entry.1 ∈ [ruleTableKey entries]) ∧
        readField (ruleTableKey entries) {} Options.read entries = .ok options := by
  refine readTable_then_iff.trans (exists_congr fun entries => and_congr_right fun _ => ?_)
  dsimp only
  split
  · next found unknown read noneUnknown =>
      rw [read, ← unknownKeys_eq_nil_iff, noneUnknown]
      simp
  · next found unknown notBoth =>
      refine ⟨nofun, ?_⟩
      rintro ⟨known, read⟩
      exact (notBoth _ read (unknownKeys_eq_nil_iff.mpr known)).elim

theorem isReadable_of_readAmongRules {value : Datum} {options : Options}
    (accepted : readAmongRules value = .ok options) : options.IsReadable := by
  rcases readAmongRules_eq_ok_iff.mp accepted with ⟨entries, _, _, read⟩
  rcases readField_eq_ok_iff.mp read with ⟨inner, _, found⟩ | ⟨_, isDefault⟩
  · exact isReadable_of_read found
  · exact isDefault ▸ isReadable_default

theorem ruleTableKey_mem (entries : List (String × Datum)) :
    ruleTableKey entries ∈ ["callback-return", "callback_return"] := by
  rw [ruleTableKey]
  split
  · exact List.mem_cons_self
  · exact List.mem_cons_of_mem _ List.mem_cons_self

/-- The table with one table for each rule has no other keys than the rule's, and the rule's
table none but that of the names. -/
theorem isTableOf_of_readAmongRules {value : Datum} {options : Options}
    (accepted : readAmongRules value = .ok options) :
    value.IsTableOf ["callback-return", "callback_return"] ∧
      ∀ key inner, value.field? key = some inner → inner.IsTableOf ["names"] := by
  rcases readAmongRules_eq_ok_iff.mp accepted with ⟨entries, rfl, known, read⟩
  refine ⟨⟨entries, rfl, ?_⟩, ?_⟩
  · intro entry member
    rw [List.mem_singleton.mp (known entry member)]
    exact ruleTableKey_mem entries
  · intro key inner found
    -- The key that counts is the only one, so that no table goes unread.
    have only : key = ruleTableKey entries := by
      by_contra other
      have missing := find?_eq_none_of_notMem known (List.mem_singleton.not.mpr other)
      cases missing.symm.trans found
    rw [only] at found
    rcases readField_eq_ok_iff.mp read with ⟨table, foundToo, readInner⟩ | ⟨missing, _⟩
    · rw [Option.some.inj (found.symm.trans foundToo)]
      rcases read_eq_ok_iff.mp readInner with ⟨others, isTable, among, _⟩
      exact ⟨others, isTable, among⟩
    · cases missing.symm.trans found

end Options

namespace Settings

/-! ## Settings -/

theorem read_eq_ok_iff {value : Datum} {settings : Settings} :
    read value = .ok settings ↔
      ∃ entries, value = .table entries ∧ (∀ entry ∈ entries, entry.1 ∈ keys) ∧
        readField "include" [] readTexts entries = .ok settings.included ∧
        readField "exclude" [] readTexts entries = .ok settings.excluded ∧
        readField "nested_gitignore" false readBoolean entries = .ok settings.nestedIgnoring ∧
        readField "rules" {} Options.readAmongRules entries = .ok settings.options := by
  refine readTable_then_iff.trans (exists_congr fun entries => and_congr_right fun _ => ?_)
  dsimp only
  split
  · next first second third fourth noneUnknown =>
      rw [first, second, third, fourth, ← unknownKeys_eq_nil_iff, noneUnknown]
      cases settings
      simp
  · next notAll =>
      refine ⟨nofun, ?_⟩
      rintro ⟨known, first, second, third, fourth⟩
      exact (notAll _ _ _ _ first second third fourth (unknownKeys_eq_nil_iff.mpr known)).elim

/-- The tables that settings are read from have no keys but the known ones.  The table of the rule
may have either spelling of its key; the other one would then be unknown. -/
structure HasKnownKeys (value : Datum) : Prop where
  outer : value.IsTableOf ["include", "exclude", "nested_gitignore", "rules"]
  rules : ∀ rules, value.field? "rules" = some rules →
    rules.IsTableOf ["callback-return", "callback_return"]
  inner : ∀ rules key options, value.field? "rules" = some rules →
    rules.field? key = some options → options.IsTableOf ["names"]

theorem hasKnownKeys_of_read {value : Datum} {settings : Settings}
    (accepted : read value = .ok settings) : HasKnownKeys value := by
  rcases read_eq_ok_iff.mp accepted with ⟨entries, rfl, known, _, _, _, options⟩
  have described : ∀ rules, field? "rules" (.table entries) = some rules →
      Options.readAmongRules rules = .ok settings.options := by
    intro rules found
    rcases readField_eq_ok_iff.mp options with ⟨table, foundToo, read⟩ | ⟨missing, _⟩
    · rw [Option.some.inj (found.symm.trans foundToo)]
      exact read
    · cases missing.symm.trans found
  constructor
  · exact ⟨entries, rfl, known⟩
  · intro rules found
    exact (Options.isTableOf_of_readAmongRules (described rules found)).1
  · intro rules key options found foundInner
    exact (Options.isTableOf_of_readAmongRules (described rules found)).2 key options foundInner

theorem isReadable_of_read {value : Datum} {settings : Settings}
    (accepted : read value = .ok settings) : settings.options.IsReadable := by
  rcases read_eq_ok_iff.mp accepted with ⟨entries, _, _, _, _, _, options⟩
  rcases readField_eq_ok_iff.mp options with ⟨rules, _, read⟩ | ⟨_, isDefault⟩
  · exact Options.isReadable_of_readAmongRules read
  · exact isDefault ▸ Options.isReadable_default

theorem dump_eq (settings : Settings) :
    settings.dump = .table
      [("include", .list (settings.included.map .text)),
       ("exclude", .list (settings.excluded.map .text)),
       ("nested_gitignore", .boolean settings.nestedIgnoring),
       ("rules", .table [("callback_return", settings.options.dump)])] := rfl

/-- Settings come back from their own table exactly if reading can lead to their options. -/
theorem read_dump_iff {settings : Settings} :
    read settings.dump = .ok settings ↔ settings.options.IsReadable := by
  refine ⟨isReadable_of_read, fun readable => ?_⟩
  have options : Options.readAmongRules (.table [("callback_return", settings.options.dump)]) =
      .ok settings.options := by
    refine Options.readAmongRules_eq_ok_iff.mpr ⟨_, rfl, by simp [ruleTableKey, find?], ?_⟩
    exact readField_eq_ok_iff.mpr (Or.inl ⟨_, rfl, Options.read_dump_iff.mpr readable⟩)
  refine read_eq_ok_iff.mpr ⟨_, dump_eq settings, by simp [keys], ?_, ?_, ?_, ?_⟩
  · exact readField_eq_ok_iff.mpr (Or.inl ⟨_, rfl, readTextsFrom_texts 0 settings.included⟩)
  · exact readField_eq_ok_iff.mpr (Or.inl ⟨_, rfl, readTextsFrom_texts 0 settings.excluded⟩)
  · exact readField_eq_ok_iff.mpr (Or.inl ⟨_, rfl, rfl⟩)
  · exact readField_eq_ok_iff.mpr (Or.inl ⟨_, rfl, options⟩)

/-- Settings that were read came from tables with known keys only, repeat no name, and are
read again from the table that they are dumped to.  Options that were read are read again
from theirs. -/
theorem read_settles :
    (∀ value settings, read value = .ok settings →
      HasKnownKeys value ∧ settings.options.names.Nodup ∧ read settings.dump = .ok settings) ∧
    ∀ value options, Options.read value = .ok options →
      Options.read options.dump = .ok options := by
  constructor
  · intro value settings accepted
    have readable := isReadable_of_read accepted
    exact ⟨hasKnownKeys_of_read accepted, readable.distinct, read_dump_iff.mpr readable⟩
  · intro value options accepted
    exact Options.read_dump_iff.mpr (Options.isReadable_of_read accepted)

def repeatingOptions : Datum :=
  .table [("names", .list [.text "done", .text "next\n", .text "done"])]

/-- Settings under the other spelling of a key, with a word for a truth value. -/
def looseSettings : Datum :=
  .table [("rules", .table [("callback-return", repeatingOptions)]),
    ("nested_gitignore", .text "YES"), ("exclude", .list [.text "*.cjs"])]

theorem read_settles_loose :
    let options : Options := { names := ["done", "next\n"] }
    let settings : Settings := { excluded := ["*.cjs"], nestedIgnoring := true, options }
    (read looseSettings = .ok settings ∧ HasKnownKeys looseSettings ∧
        settings.options.names.Nodup ∧ read settings.dump = .ok settings) ∧
      Options.read repeatingOptions = .ok options ∧
        Options.read options.dump = .ok options := by
  intro options settings
  have accepted : read looseSettings = .ok settings := by decide +kernel
  have named : Options.read repeatingOptions = .ok options := by decide +kernel
  exact ⟨⟨accepted, read_settles.1 looseSettings settings accepted⟩, named,
    read_settles.2 repeatingOptions options named⟩

end Settings

end CallbackLint
