import CallbackLint.Settings.Basic

namespace CallbackLint

/-!
# Reading names that are texts

A list of texts is a list of callback names if each of them is accepted, and the first
one that is not is what is wrong with it.
-/

namespace CallbackName

/-- The first of some names that is not accepted. -/
def rejected? (names : List String) : Option String :=
  names.find? fun name => !isAccepted name.toList

theorem rejected?_eq_none_iff {names : List String} :
    rejected? names = none ↔ ∀ name ∈ names, isAccepted name.toList = true := by
  simp [rejected?]

theorem readAll_texts (names : List String) :
    readAll (names.map .text) =
      match rejected? names with
      | some name => .error (.notAnIdentifier name)
      | none => .ok names := by
  induction names with
  | nil => rfl
  | cons name rest inductionHypothesis =>
      rw [List.map_cons, readAll, read, rejected?, List.find?_cons, inductionHypothesis, rejected?]
      cases isAccepted name.toList with
      | false => rfl
      | true => cases rest.find? fun name => !isAccepted name.toList <;> rfl

end CallbackName

/-- What is wrong with options that have a name that is not accepted. -/
def badName (name : String) : Problem :=
  { way := [.key "names"], fault := .names (.notAnIdentifier name) }

/-- Options that give the names as texts. -/
theorem Options.read_texts (names : List String) :
    Options.read (.table [("names", .list (names.map .text))]) =
      match CallbackName.rejected? names with
      | some name => .error [badName name]
      | none => .ok { names := names.eraseDups } := by
  have found : Datum.find? "names" [("names", .list (names.map .text))] =
      some (.list (names.map .text)) := rfl
  rw [Options.read, Datum.readTable]
  simp only [Datum.readField, found, readNames, CallbackName.readAll_texts]
  cases CallbackName.rejected? names with
  | some name => rfl
  | none => rfl

/-- Names that options are given as texts are accepted, and the options have them once each. -/
theorem Options.names_of_read {names : List String} {options : Options}
    (accepted : Options.read (.table [("names", .list (names.map .text))]) = .ok options) :
    CallbackName.rejected? names = none ∧ options.names = names.eraseDups := by
  rw [Options.read_texts] at accepted
  cases rejected : CallbackName.rejected? names with
  | some name =>
      rw [rejected] at accepted
      cases accepted
  | none =>
      rw [rejected] at accepted
      cases accepted
      exact ⟨rfl, rfl⟩

end CallbackLint
