import CallbackLint.Proofs.Files.Listing
import CallbackLint.Proofs.Report.Reading
import CallbackLint.Report.Rendering
import CallbackLint.Rule.Inspection

namespace CallbackLint

/-!
# What lines of text say of diagnostics

Nothing is escaped in a line of text, and a path may hold colons, digits and even the message.
So a location is read from its end: the column is behind the last colon and the line behind
the one before.  Numbers are written without colons, so that these two are never part of
the path, and there is a path exactly if a colon is left.

What the rule reports has one message, without a line feed.  If the paths have none either,
then the lines of a text are those of its diagnostics, and where these point can be read off.
-/

/-- No character of an integer is any but a digit or the sign. -/
theorem notMem_toString {char : Char} (noDigit : char.isDigit = false) (noSign : char ≠ '-')
    (value : Int) : char ∉ (toString value).toList := by
  intro member
  rcases Json.isDigit_or_of_mem_toString member with digit | sign
  · cases noDigit.symm.trans digit
  · exact noSign sign

namespace Diagnostic

/-! ## Locations -/

/-- The path, the line and the column that a diagnostic points to. -/
def place (diagnostic : Diagnostic) : Option String × Int × Int :=
  (diagnostic.path, diagnostic.line, diagnostic.column)

/-- The path that is left of a location, if anything is left. -/
def pathOfPieces : List (List Char) → Option String
  | [] => none
  | pieces => some (String.ofList ([':'].intercalate pieces))

/-- The place that the pieces of a location between its colons make up, last piece first. -/
def placeOfPieces? : List (List Char) → Option (Option String × Int × Int)
  | column :: line :: rest =>
    match Json.integer? line, Json.integer? column with
    | some line, some column => some (pathOfPieces rest.reverse, line, column)
    | _, _ => none
  | _ => none

def readLocation? (location : String) : Option (Option String × Int × Int) :=
  placeOfPieces? (piecesBetween ':' location.toList).reverse

theorem pathOfPieces_piecesBetween (path : String) :
    pathOfPieces (piecesBetween ':' path.toList) = some path := by
  cases pieces : piecesBetween ':' path.toList with
  | nil => exact absurd pieces (piecesBetween_ne_nil ':' path.toList)
  | cons first others =>
      rw [pathOfPieces, ← pieces, intercalate_piecesBetween, String.ofList_toList]
      exact List.cons_ne_nil first others

/-- A line and a column are the last two pieces of a location. -/
theorem placeOfPieces?_numbers (line column : Int) (pieces : List (List Char)) :
    placeOfPieces? (pieces ++ [(toString line).toList, (toString column).toList]).reverse =
      some (pathOfPieces pieces, line, column) := by
  rw [List.reverse_append, List.reverse_cons, List.reverse_singleton, List.singleton_append,
    List.cons_append, List.singleton_append, placeOfPieces?, Json.integer?_toString,
    Json.integer?_toString, List.reverse_reverse]

theorem piecesBetween_numbers (line column : Int) :
    piecesBetween ':' s!"{line}:{column}".toList =
      [(toString line).toList, (toString column).toList] := by
  have noColon : ∀ value : Int, ':' ∉ (toString value).toList :=
    notMem_toString (by decide) (by decide)
  have spelled : s!"{line}:{column}".toList =
      (toString line).toList ++ ':' :: (toString column).toList := by
    rw [String.toList_append, String.toList_append, List.append_assoc]
    rfl
  rw [spelled, Location.piecesBetween_append_cons (noColon line),
    Location.piecesBetween_of_notMem (noColon column)]

/-- A location is read back as the place that it was written for. -/
theorem readLocation?_location (diagnostic : Diagnostic) :
    readLocation? diagnostic.location = some diagnostic.place := by
  rw [readLocation?, location, place]
  cases diagnostic.path with
  | none =>
      dsimp only
      rw [piecesBetween_numbers]
      exact placeOfPieces?_numbers diagnostic.line diagnostic.column []
  | some path =>
      have spelled : (path ++ ":" ++ s!"{diagnostic.line}:{diagnostic.column}").toList =
          path.toList ++ ':' :: s!"{diagnostic.line}:{diagnostic.column}".toList := by
        rw [String.toList_append, String.toList_append, List.append_assoc]
        rfl
      dsimp only
      rw [spelled, piecesBetween_append_separator, piecesBetween_numbers, placeOfPieces?_numbers,
        pathOfPieces_piecesBetween]

/-! ## Lines -/

/-- What stands on a line behind the location. -/
def remark (diagnostic : Diagnostic) : String :=
  ": " ++ diagnostic.message ++ " [" ++ diagnostic.rule ++ "]"

theorem summary_eq (diagnostic : Diagnostic) :
    diagnostic.summary = diagnostic.location ++ diagnostic.remark := by
  have spelled : diagnostic.summary =
      diagnostic.location ++ ": " ++ diagnostic.message ++ " [" ++ diagnostic.rule ++ "]" := rfl
  rw [spelled, remark]
  simp only [String.append_assoc]

/-- Lines that end alike tell different places apart. -/
theorem place_eq_of_summary_eq {first second : Diagnostic} (alike : first.remark = second.remark)
    (same : first.summary = second.summary) : first.place = second.place := by
  rw [summary_eq, summary_eq, alike] at same
  have locations := congrArg readLocation? (String.append_left_inj _ |>.mp same)
  rw [readLocation?_location, readLocation?_location] at locations
  exact Option.some.inj locations

/-- A diagnostic with the message of the rule, in a source whose name, if it has one, fits on
a line. -/
structure IsOfRule (diagnostic : Diagnostic) : Prop where
  rule : diagnostic.rule = ruleName
  message : diagnostic.message = "Expected return with your callback function."
  path : ∀ path, diagnostic.path = some path → '\n' ∉ path.toList

theorem IsOfRule.remark_eq {first second : Diagnostic} (ofRule : first.IsOfRule)
    (alsoOfRule : second.IsOfRule) : first.remark = second.remark := by
  rw [remark, remark, ofRule.message, ofRule.rule, alsoOfRule.message, alsoOfRule.rule]

/-- Such a diagnostic is shown on a single line. -/
theorem IsOfRule.notMem_summary {diagnostic : Diagnostic} (ofRule : diagnostic.IsOfRule) :
    '\n' ∉ diagnostic.summary.toList := by
  have noNewline : ∀ value : Int, '\n' ∉ (toString value).toList :=
    notMem_toString (by decide) (by decide)
  have inPlace : '\n' ∉ s!"{diagnostic.line}:{diagnostic.column}".toList := by
    rw [String.toList_append, String.toList_append, List.mem_append, List.mem_append]
    rintro ((line | colon) | column)
    · exact noNewline diagnostic.line line
    · exact absurd colon (by decide)
    · exact noNewline diagnostic.column column
  have inLocation : '\n' ∉ diagnostic.location.toList := by
    rw [location]
    cases named : diagnostic.path with
    | none => exact inPlace
    | some path =>
        rw [String.toList_append, String.toList_append, List.mem_append, List.mem_append]
        rintro ((inPath | colon) | inNumbers)
        · exact ofRule.path path named inPath
        · exact absurd colon (by decide)
        · exact inPlace inNumbers
  have inRemark : '\n' ∉ diagnostic.remark.toList := by
    rw [remark, ofRule.message, ofRule.rule]
    decide
  rw [summary_eq, String.toList_append, List.mem_append]
  exact fun member => member.elim inLocation inRemark

end Diagnostic

/-! ## Texts -/

theorem toList_renderText_cons (diagnostic : Diagnostic) (rest : List Diagnostic) :
    (renderText (diagnostic :: rest)).toList =
      diagnostic.summary.toList ++ '\n' :: (renderText rest).toList := by
  rw [renderText, List.map_cons, String.join_cons, String.toList_append, String.toList_append,
    List.append_assoc]
  rfl

/-- Cut at its line feeds, a text is the lines of its diagnostics, and nothing is left behind
the last one. -/
theorem piecesBetween_renderText {diagnostics : List Diagnostic}
    (single : ∀ diagnostic ∈ diagnostics, '\n' ∉ diagnostic.summary.toList) :
    piecesBetween '\n' (renderText diagnostics).toList =
      diagnostics.map (fun diagnostic => diagnostic.summary.toList) ++ [[]] := by
  induction diagnostics with
  | nil => rfl
  | cons diagnostic rest inductionHypothesis =>
      rw [List.forall_mem_cons] at single
      rw [toList_renderText_cons, Location.piecesBetween_append_cons single.1,
        inductionHypothesis single.2]
      rfl

theorem renderText_eq_empty_iff {diagnostics : List Diagnostic} :
    renderText diagnostics = "" ↔ diagnostics = [] := by
  constructor
  · intro empty
    cases diagnostics with
    | nil => rfl
    | cons diagnostic rest =>
        have nothing := congrArg String.toList empty
        rw [toList_renderText_cons] at nothing
        exact absurd nothing (List.append_ne_nil_of_right_ne_nil _ (List.cons_ne_nil _ _))
  · rintro rfl
    rfl

/-- Equal lines in a row are lines of equal places. -/
theorem places_eq_of_summaries_eq {first second : List Diagnostic}
    (ofRule : ∀ diagnostic ∈ first, diagnostic.IsOfRule)
    (alsoOfRule : ∀ diagnostic ∈ second, diagnostic.IsOfRule)
    (same : first.map Diagnostic.summary = second.map Diagnostic.summary) :
    first.map Diagnostic.place = second.map Diagnostic.place := by
  induction first generalizing second with
  | nil =>
      rw [List.map_eq_nil_iff.mp same.symm]
  | cons diagnostic rest inductionHypothesis =>
      cases second with
      | nil => cases same
      | cons other others =>
          rw [List.map_cons, List.map_cons, List.cons.injEq] at same
          rw [List.forall_mem_cons] at ofRule alsoOfRule
          rw [List.map_cons, List.map_cons,
            Diagnostic.place_eq_of_summary_eq (ofRule.1.remark_eq alsoOfRule.1) same.1,
            inductionHypothesis ofRule.2 alsoOfRule.2 same.2]

/-- The text of diagnostics of the rule has one line for each of them, in their order, and is
empty if there are none.  Two lists of them with the same text point to the same places. -/
theorem renderText_unambiguous (diagnostics : List Diagnostic)
    (ofRule : ∀ diagnostic ∈ diagnostics, diagnostic.IsOfRule) :
    piecesBetween '\n' (renderText diagnostics).toList =
        diagnostics.map (fun diagnostic => diagnostic.summary.toList) ++ [[]] ∧
      (renderText diagnostics = "" ↔ diagnostics = []) ∧
      ∀ others : List Diagnostic, (∀ other ∈ others, other.IsOfRule) →
        renderText others = renderText diagnostics →
        others.map Diagnostic.place = diagnostics.map Diagnostic.place := by
  have lines : ∀ shown : List Diagnostic, (∀ diagnostic ∈ shown, diagnostic.IsOfRule) →
      piecesBetween '\n' (renderText shown).toList =
        shown.map (fun diagnostic => diagnostic.summary.toList) ++ [[]] :=
    fun shown ofRule => piecesBetween_renderText fun diagnostic member =>
      (ofRule diagnostic member).notMem_summary
  refine ⟨lines diagnostics ofRule, renderText_eq_empty_iff, ?_⟩
  intro others alsoOfRule same
  apply places_eq_of_summaries_eq alsoOfRule ofRule
  have pieces := lines others alsoOfRule
  rw [same, lines diagnostics ofRule] at pieces
  have summaries := List.append_cancel_right pieces
  apply List.map_injective_iff.mpr (fun _ _ => String.toList_inj.mp)
  rw [List.map_map, List.map_map]
  exact summaries.symm

/-- A diagnostic of the rule in a file whose name looks like a location. -/
def misleadingDiagnostic : Diagnostic :=
  .missingReturn (some "1:2: [x") ⟨3, 4⟩

/-- A name that looks like a location, and a source without a name. -/
theorem renderText_unambiguous_misleading :
    let diagnostics := [misleadingDiagnostic, .missingReturn none ⟨3, -4⟩]
    (∀ diagnostic ∈ diagnostics, diagnostic.IsOfRule) ∧
      renderText diagnostics =
        "1:2: [x:3:4: Expected return with your callback function. [callback-return]\n" ++
          "3:-4: Expected return with your callback function. [callback-return]\n" ∧
      ∀ others : List Diagnostic, (∀ other ∈ others, other.IsOfRule) →
        renderText others = renderText diagnostics →
        others.map Diagnostic.place = [(some "1:2: [x", 3, 4), (none, 3, -4)] := by
  intro diagnostics
  have ofRule : ∀ diagnostic ∈ diagnostics, diagnostic.IsOfRule := by
    intro diagnostic member
    rcases List.mem_pair.mp member with rfl | rfl
    · refine ⟨rfl, rfl, ?_⟩
      rintro path ⟨⟩
      decide
    · exact ⟨rfl, rfl, nofun⟩
  exact ⟨ofRule, by decide +kernel, (renderText_unambiguous diagnostics ofRule).2.2⟩

end CallbackLint
