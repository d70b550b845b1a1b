import CallbackLint.Proofs.Report.RoundTrip
import CallbackLint.Report.Rendering
import Mathlib.Algebra.Ring.Int.Defs
import Mathlib.Data.List.Forall2

namespace CallbackLint

/-!
# What a document says of diagnostics

A document is written for diagnostics whenever it can hold their lines and columns.  It is
a list with one object for each diagnostic in their order, and nothing of a diagnostic is
lost in its object: whoever reads the document back knows the diagnostics.
-/

namespace Diagnostic

/-- The entries of an object tell everything about a diagnostic, under keys in alphabetical
order.  The path is null in a source without a name, and only there. -/
structure IsToldBy (diagnostic : Diagnostic) (entries : List (String × Json)) : Prop where
  keys : entries.map Prod.fst = ["column", "line", "message", "node_type", "path", "rule"]
  column : entries.lookup "column" = some (.integer diagnostic.column)
  line : entries.lookup "line" = some (.integer diagnostic.line)
  message : entries.lookup "message" = some (.text diagnostic.message)
  nodeType : entries.lookup "node_type" = some (.text diagnostic.nodeType)
  rule : entries.lookup "rule" = some (.text diagnostic.rule)
  path : ∃ path, entries.lookup "path" = some path ∧
    (path = .null ↔ diagnostic.path = none) ∧
    ∀ name, path = .text name ↔ diagnostic.path = some name

/-- The item of a list that stands for a diagnostic. -/
def IsItem (diagnostic : Diagnostic) (item : Json) : Prop :=
  ∃ entries, item = .object entries ∧ diagnostic.IsToldBy entries

theorem isItem_toJson (diagnostic : Diagnostic) : diagnostic.IsItem diagnostic.toJson := by
  refine ⟨_, rfl, ?_⟩
  exact {
    keys := rfl
    column := rfl
    line := rfl
    message := rfl
    nodeType := rfl
    rule := rfl
    path := by
      refine ⟨_, rfl, ?_⟩
      cases diagnostic.path with
      | none => exact ⟨⟨fun _ => rfl, fun _ => rfl⟩, fun name => ⟨nofun, nofun⟩⟩
      | some path =>
          refine ⟨⟨nofun, nofun⟩, fun name => ⟨?_, ?_⟩⟩
          · intro same
            rw [Json.text.inj same]
          · intro same
            rw [Option.some.inj same] }

/-- A diagnostic is known from what is told about it. -/
theorem IsToldBy.unique {first second : Diagnostic} {entries : List (String × Json)}
    (tells : first.IsToldBy entries) (alsoTells : second.IsToldBy entries) : first = second := by
  have column := Json.integer.inj (Option.some.inj (tells.column.symm.trans alsoTells.column))
  have line := Json.integer.inj (Option.some.inj (tells.line.symm.trans alsoTells.line))
  have message := Json.text.inj (Option.some.inj (tells.message.symm.trans alsoTells.message))
  have nodeType := Json.text.inj (Option.some.inj (tells.nodeType.symm.trans alsoTells.nodeType))
  have rule := Json.text.inj (Option.some.inj (tells.rule.symm.trans alsoTells.rule))
  have path : first.path = second.path := by
    rcases tells.path with ⟨path, found, isNull, isText⟩
    rcases alsoTells.path with ⟨again, foundAgain, isNullAgain, isTextAgain⟩
    cases Option.some.inj (found.symm.trans foundAgain)
    cases named : first.path with
    | none => exact (isNullAgain.mp (isNull.mpr named)).symm
    | some name => exact ((isTextAgain name).mp ((isText name).mpr named)).symm
  cases first
  cases second
  cases column
  cases line
  cases message
  cases nodeType
  cases rule
  cases path
  rfl

theorem leftUnique_isItem : Relator.LeftUnique IsItem := by
  rintro first item second ⟨entries, rfl, tells⟩ ⟨others, same, alsoTells⟩
  cases same
  exact tells.unique alsoTells

end Diagnostic

theorem forall₂_isItem (diagnostics : List Diagnostic) :
    List.Forall₂ Diagnostic.IsItem diagnostics (diagnostics.map Diagnostic.toJson) := by
  rw [List.forall₂_map_right_iff, List.forall₂_same]
  intro diagnostic _
  exact diagnostic.isItem_toJson

/-! ## When a document is written -/

theorem isDocumentInteger_iff {value : Int} :
    isDocumentInteger value = true ↔ -2 ^ 63 ≤ value ∧ value ≤ 2 ^ 64 - 1 := by
  rw [isDocumentInteger, decide_eq_true_eq]
  rfl

theorem overflows_eq_nil_iff {diagnostics : List Diagnostic} :
    overflows diagnostics = [] ↔
      ∀ diagnostic ∈ diagnostics,
        isDocumentInteger diagnostic.line = true ∧ isDocumentInteger diagnostic.column = true := by
  rw [overflows, List.flatMap_eq_nil_iff]
  refine forall₂_congr fun diagnostic _ => ?_
  rw [List.filter_eq_nil_iff]
  simp only [List.mem_cons, List.not_mem_nil, or_false, forall_eq_or_imp, forall_eq,
    Bool.not_eq_true', Bool.not_eq_false]
  exact and_comm

/-- What a document is when it is written. -/
theorem renderJson_eq_ok_iff {diagnostics : List Diagnostic} {text : String} :
    renderJson diagnostics = .ok text ↔
      overflows diagnostics = [] ∧
        text.toList = (Json.list (diagnostics.map Diagnostic.toJson)).write 0 ++ ['\n'] := by
  rw [renderJson]
  cases overflows diagnostics with
  | cons value rest => exact ⟨nofun, fun written => nomatch written.1⟩
  | nil =>
      constructor
      · intro written
        rw [← Except.ok.inj written, String.toList_ofList]
        exact ⟨rfl, rfl⟩
      · intro ⟨_, spelled⟩
        exact congrArg Except.ok (spelled ▸ String.ofList_toList)

/-- A document is written exactly when every line and every column is an integer of 64
bits, with or without a sign.  Its text is one JSON value with a line end behind it, and the
value is the list of the diagnostics, each of them told in full.  So no other diagnostics
have the same document. -/
theorem renderJson_lossless (diagnostics : List Diagnostic) :
    ((∃ text, renderJson diagnostics = .ok text) ↔
      ∀ diagnostic ∈ diagnostics,
        (-2 ^ 63 ≤ diagnostic.line ∧ diagnostic.line ≤ 2 ^ 64 - 1) ∧
          (-2 ^ 63 ≤ diagnostic.column ∧ diagnostic.column ≤ 2 ^ 64 - 1)) ∧
      ∀ text, renderJson diagnostics = .ok text →
        (∃ document items, text.toList = document ++ ['\n'] ∧ document.getLast? = some ']' ∧
          Json.parse? document = some (.list items) ∧
          List.Forall₂ Diagnostic.IsItem diagnostics items) ∧
        ∀ others, renderJson others = .ok text → others = diagnostics := by
  have reads (shown : List Diagnostic) :
      Json.parse? ((Json.list (shown.map Diagnostic.toJson)).write 0) =
        some (.list (shown.map Diagnostic.toJson)) := Json.parse?_write 0 _
  refine ⟨?_, ?_⟩
  · simp only [renderJson_eq_ok_iff, overflows_eq_nil_iff, isDocumentInteger_iff]
    constructor
    · rintro ⟨_, fits, _⟩
      exact fits
    · intro fits
      exact ⟨String.ofList _, fits, String.toList_ofList⟩
  · intro text written
    have spelled := (renderJson_eq_ok_iff.mp written).2
    refine ⟨⟨_, _, spelled, Json.getLast?_write_list 0 _, reads diagnostics,
      forall₂_isItem diagnostics⟩, ?_⟩
    intro others alsoWritten
    have alsoSpelled := (renderJson_eq_ok_iff.mp alsoWritten).2
    have sameDocument := List.append_cancel_right (alsoSpelled.symm.trans spelled)
    have sameItems := (reads others).symm.trans ((congrArg Json.parse? sameDocument).trans
      (reads diagnostics))
    have told := forall₂_isItem others
    rw [Json.list.inj (Option.some.inj sameItems)] at told
    exact Diagnostic.leftUnique_isItem.forall₂ told (forall₂_isItem diagnostics)

/-- A diagnostic at the ends of both ranges, with texts that must be escaped. -/
def extremeDiagnostic : Diagnostic where
  rule := "a\x22b\\"
  message := "é\n\x01😀"
  line := -9223372036854775808
  column := 18446744073709551615
  nodeType := "null"
  path := some "null"

/-- The document of a diagnostic at the ends of both ranges. -/
def extremeDocument : String :=
  "[\n  \x7b\n    \x22column\x22: 18446744073709551615,\n" ++
    "    \x22line\x22: -9223372036854775808,\n" ++
    "    \x22message\x22: \x22é\\n\\u0001😀\x22,\n" ++
    "    \x22node_type\x22: \x22null\x22,\n" ++
    "    \x22path\x22: \x22null\x22,\n" ++
    "    \x22rule\x22: \x22a\\\x22b\\\\\x22\n  \x7d\n]\n"

theorem renderJson_lossless_extreme :
    renderJson [extremeDiagnostic] = .ok extremeDocument ∧
      (∃ document items, extremeDocument.toList = document ++ ['\n'] ∧
        document.getLast? = some ']' ∧ Json.parse? document = some (.list items) ∧
        List.Forall₂ Diagnostic.IsItem [extremeDiagnostic] items) ∧
      ∀ others, renderJson others = .ok extremeDocument → others = [extremeDiagnostic] :=
  ⟨by decide +kernel,
    (renderJson_lossless [extremeDiagnostic]).2 extremeDocument (by decide +kernel)⟩

end CallbackLint
