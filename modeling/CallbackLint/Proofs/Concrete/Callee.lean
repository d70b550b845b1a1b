import CallbackLint.Proofs.Concrete.Surroundings
import CallbackLint.Proofs.Concrete.Transparency
import CallbackLint.Proofs.Rule.Likeness
import CallbackLint.Proofs.Rule.Locality

namespace CallbackLint

open Rose

/-!
# Callees in parentheses

Parentheses give way to what they wrap, but the callee of a call is read before they do.
So a call whose callee stands in parentheses becomes the same call without a callee, and
it is never reported.

The two calls have the same place in the syntax tree.  A check reads the callee of a call at the
call itself and nowhere else, so everything else that is found there is the same.
-/

namespace Concrete

open Lowering

/-! ## Callees -/

/-- The text of an identifier, without the blanks around it. -/
def identifierText (source : List UInt8) (node : Concrete) : String :=
  String.ofList (trimBlanks (Utf8.decodeDropping (node.value.bytes source)))

/-- Only a child that is an identifier itself is read as a callee. -/
theorem calleeOf?_fill (source : List UInt8) {crumb : Crumb ConcreteLabel} {child : Concrete}
    (role : IsFirstInRole "function" crumb child) :
    calleeOf? source (crumb.fill child) =
      if child.value.type = "identifier" then some (identifierText source child) else none := by
  have earlier : crumb.before.find? (fun sibling => sibling.value.field == some "function") =
      none := by
    apply List.find?_eq_none.mpr
    intro sibling member found
    exact role.2 sibling member (beq_iff_eq.mp found)
  rw [calleeOf?, childInRole?_fill, earlier, Option.none_or, role.1, beq_self_eq_true, if_pos rfl]
  rfl

/-- A call goes above what its visible children become. -/
theorem lowerDirectly_fill_of_call (source : List UInt8) {crumb : Crumb ConcreteLabel}
    {child : Concrete} (call : isCall (crumb.fill child) = true) :
    lowerDirectly source (crumb.fill child) =
      .node { kind := .call, position := crumb.value.position source
              callee := calleeOf? source (crumb.fill child) }
        (present (lowerAllDirectly source crumb.before) ++
          ((if child.value.isVisible then [lowerDirectly source child] else []) ++
            present (lowerAllDirectly source crumb.after))) := by
  have noWrapper : wrapperTypes.contains crumb.value.type = false := by
    have type := (Bool.and_eq_true_iff.mp call).1
    rw [Crumb.fill, value_node, beq_iff_eq] at type
    rw [type]
    rfl
  rw [Crumb.fill] at call ⊢
  rw [lowerDirectly, build, value_node, noWrapper, if_neg Bool.false_ne_true, if_pos call,
    lowerAllDirectly_append, lowerAllDirectly_cons, present_append, present_append]
  cases child.value.isVisible with
  | false => rfl
  | true => rfl

/-! ## Callees in parentheses -/

/-- Layers of parentheses give way to what they wrap. -/
theorem lowerDirectly_layers (source : List UInt8) {layers : Context ConcreteLabel}
    (parentheses : ∀ layer ∈ layers, IsParentheses layer) {inner : Concrete}
    (visible : layers ≠ [] → inner.value.isVisible = true) :
    lowerDirectly source (fill layers inner) = lowerDirectly source inner := by
  induction layers generalizing inner with
  | nil => rfl
  | cons layer layers inductionHypothesis =>
      have first := parentheses layer List.mem_cons_self
      have visibleLayer : layers ≠ [] → (layer.fill inner).value.isVisible = true :=
        fun _ => first.isVisible
      rw [fill, inductionHypothesis
        (fun other member => parentheses other (List.mem_cons_of_mem _ member)) visibleLayer]
      exact lowerDirectly_of_parentheses source first (visible (List.cons_ne_nil _ _))

/-- The callee of a call is an identifier in layers of parentheses, the innermost first.  There
may be none. -/
structure EnclosedCallee (crumb : Crumb ConcreteLabel) (layers : Context ConcreteLabel)
    (identifier : Concrete) : Prop where
  isCall : isCall (crumb.fill (fill layers identifier)) = true
  role : IsFirstInRole "function" crumb (fill layers identifier)
  isIdentifier : identifier.value.type = "identifier"
  isVisible : layers ≠ [] → identifier.value.isVisible = true
  parentheses : ∀ layer ∈ layers, IsParentheses layer

/-- The same identifier as the callee itself. -/
def asCallee (identifier : Concrete) : Concrete := identifier.withField (some "function")

/-- Without the parentheses, the nodes have some of the identities that they had. -/
theorem Distinct.asCallee (context : Context ConcreteLabel) (crumb : Crumb ConcreteLabel)
    {layers : Context ConcreteLabel} {identifier : Concrete}
    (distinct : Distinct (fill context (crumb.fill (fill layers identifier)))) :
    Distinct (fill context (crumb.fill identifier.asCallee)) := by
  have inside : (identifier.asCallee.preorder.map ConcreteLabel.identity).Sublist
      ((fill layers identifier).preorder.map ConcreteLabel.identity) := by
    rw [Concrete.asCallee, identities_withField, preorder_fill]
    apply List.Sublist.map
    exact (List.sublist_append_right _ _).trans (List.sublist_append_left _ _)
  exact distinct.sublist
    (preorder_fill_sublist ConcreteLabel.identity (crumb :: context) inside)

namespace EnclosedCallee

variable {crumb : Crumb ConcreteLabel} {layers : Context ConcreteLabel} {identifier : Concrete}

/-- Without the parentheses, the callee is an identifier. -/
theorem bare (enclosed : EnclosedCallee crumb layers identifier) :
    EnclosedCallee crumb [] identifier.asCallee where
  isCall := by
    have call := enclosed.isCall
    rw [Lowering.isCall, typeInRole?_eq, childInRole?_fill, enclosed.role.1] at call
    rw [Lowering.isCall, typeInRole?_eq, childInRole?_fill, fill, asCallee, value_withField]
    exact call
  role := by
    rw [IsFirstInRole, fill, asCallee, value_withField]
    exact ⟨rfl, enclosed.role.2⟩
  isIdentifier := by
    rw [asCallee, value_withField]
    exact enclosed.isIdentifier
  isVisible := fun impossible => False.elim (impossible rfl)
  parentheses := fun _ impossible => nomatch impossible

/-- The callee is read if no parentheses are around it. -/
theorem calleeOf?_eq (enclosed : EnclosedCallee crumb layers identifier) (source : List UInt8) :
    calleeOf? source (crumb.fill (fill layers identifier)) =
      if layers = [] then some (identifierText source identifier) else none := by
  rw [calleeOf?_fill source enclosed.role]
  by_cases none : layers = []
  · rw [if_pos none, none, fill, if_pos enclosed.isIdentifier]
  · have type : (fill layers identifier).value.type = "parenthesized_expression" :=
      read_fill_eq ConcreteLabel.type none
        (fun layer member => (enclosed.parentheses layer member).type) _
    rw [if_neg none, type]
    rfl

/-- Apart from the callee, the call becomes the same with and without the parentheses. -/
theorem exists_below (enclosed : EnclosedCallee crumb layers identifier) (source : List UInt8) :
    ∃ below : List Tree,
      lowerDirectly source (crumb.fill (fill layers identifier)) =
          .node { kind := .call, position := crumb.value.position source
                  callee := if layers = [] then some (identifierText source identifier) else none }
            below ∧
        lowerDirectly source (crumb.fill identifier.asCallee) =
          .node { kind := .call, position := crumb.value.position source
                  callee := some (identifierText source identifier) } below := by
  have visible : (fill layers identifier).value.isVisible =
      identifier.asCallee.value.isVisible := by
    rw [asCallee, value_withField]
    by_cases none : layers = []
    · rw [none]
      rfl
    · have shown : (fill layers identifier).value.isVisible = true :=
        read_fill_eq ConcreteLabel.isVisible none
          (fun layer member => (enclosed.parentheses layer member).isVisible) _
      rw [shown]
      exact (enclosed.isVisible none).symm
  have text : identifierText source identifier.asCallee = identifierText source identifier := by
    rw [identifierText, asCallee, value_withField]
    rfl
  have bareCallee := enclosed.bare.calleeOf?_eq source
  rw [if_pos rfl, fill, text] at bareCallee
  have wrapped := lowerDirectly_fill_of_call source enclosed.isCall
  have plain := lowerDirectly_fill_of_call source enclosed.bare.isCall
  rw [enclosed.calleeOf?_eq, visible,
    lowerDirectly_layers source enclosed.parentheses enclosed.isVisible] at wrapped
  rw [fill, bareCallee, asCallee, lowerDirectly_withField] at plain
  exact ⟨_, wrapped, plain⟩

end EnclosedCallee

end Concrete

/-! ## A call with and without its callee -/

/-- What is reported before and after a call does not depend on its callee. -/
theorem Tree.check_fill_call (around : Context Label) (position : Position) (below : List Tree)
    (names : List String) (path : Option String) :
    ∃ before after : List Diagnostic, ∀ callee? : Option String,
      (check (fill around (.node { kind := .call, position, callee := callee? } below)) names
          path).diagnostics =
        before ++ (callee?.bind fun callee => Sighting.report? names path
          { callee, position, placement := Rung.placement (ladder .call around) }).toList ++
            after := by
  let rungs := ladder .call around
  refine ⟨(sightingsBefore .call around).filterMap (Sighting.report? names path),
    (sightingsAll { kind := .call, position } rungs 0 none below).filterMap
        (Sighting.report? names path) ++
      (sightingsAfter around).filterMap (Sighting.report? names path), fun callee? => ?_⟩
  have inside := sightingsAll_congr { kind := .call, position }
    { kind := .call, position, callee := callee? } rfl rfl
    (Rung.AllAlike.refl_ladder .call around) below
  have own : (Label.sighting? rungs { kind := .call, position, callee := callee? }).bind
      (Sighting.report? names path) =
        callee?.bind fun callee => Sighting.report? names path
          { callee, position, placement := Rung.placement rungs } := by
    rw [Label.sighting?, if_pos rfl, Option.bind_map]
    rfl
  have kind : Tree.kind (.node { kind := .call, position, callee := callee? } below) = .call := rfl
  rw [check_eq]
  simp only [sightings_fill, kind, sightings, inside, List.filterMap_append,
    Sighting.filterMap_toList, own, List.append_assoc, rungs]

namespace Script

open Concrete Lowering

/-- Two scripts become the same tree, except that one of them has lost the callee of a call, unless
it is kept.  Of what a check reports, it has then lost the diagnostic for this call, and only
that. -/
structure LosesCallee (script bare : Script) (kept : Prop) [Decidable kept] (callee : String)
    (position : Position) (around : Context Label) (below : List Tree) : Prop where
  tree : script.syntaxTree = fill around
    (.node { kind := .call, position, callee := if kept then some callee else none } below)
  bareTree : bare.syntaxTree = fill around
    (.node { kind := .call, position, callee := some callee } below)
  reports : ∀ (names : List String) (path : Option String), ∃ before after : List Diagnostic,
    let own := Sighting.report? names path
      { callee, position, placement := Rung.placement (ladder .call around) }
    (script.check names path).diagnostics =
        before ++ (if kept then own else none).toList ++ after ∧
      (bare.check names path).diagnostics = before ++ own.toList ++ after
  /-- So the parentheses make a difference exactly if the call is to be reported. -/
  differs : ∀ (names : List String) (path : Option String),
    (script.check names path).diagnostics ≠ (bare.check names path).diagnostics ↔
      ¬kept ∧ callee ∈ names ∧ (Rung.placement (ladder .call around)).verdict = .violating

section Trees

variable {script bare : Script} {kept : Prop} [Decidable kept] {callee : String}
  {position : Position} {around : Context Label} {below : List Tree}
  (tree : script.syntaxTree = fill around
    (.node { kind := .call, position, callee := if kept then some callee else none } below))
  (bareTree : bare.syntaxTree = fill around
    (.node { kind := .call, position, callee := some callee } below))
include tree bareTree

theorem reports_of_trees (names : List String) (path : Option String) :
    ∃ before after : List Diagnostic,
      let own := Sighting.report? names path
        { callee, position, placement := Rung.placement (ladder .call around) }
      (script.check names path).diagnostics =
          before ++ (if kept then own else none).toList ++ after ∧
        (bare.check names path).diagnostics = before ++ own.toList ++ after := by
  have diagnostics : ∀ other : Script, (other.check names path).diagnostics =
      (other.syntaxTree.check names path).diagnostics := fun _ => rfl
  rcases Tree.check_fill_call around position below names path with ⟨before, after, found⟩
  have ofScript := found (if kept then some callee else none)
  have ofBare := found (some callee)
  rw [← tree, ← diagnostics] at ofScript
  rw [← bareTree, ← diagnostics] at ofBare
  refine ⟨before, after, ofScript.trans ?_, ofBare⟩
  split_ifs
  · rfl
  · rfl

theorem LosesCallee.of_trees : LosesCallee script bare kept callee position around below := by
  have reports := reports_of_trees tree bareTree
  refine ⟨tree, bareTree, reports, fun names path => ?_⟩
  rcases reports names path with ⟨before, after, ofScript, ofBare⟩
  rw [ofScript, ofBare, ne_eq, List.append_left_inj, List.append_right_inj]
  by_cases isKept : kept
  · rw [if_pos isKept]
    exact iff_of_false (not_not_intro rfl) fun both => both.1 isKept
  · rw [if_neg isKept, Option.toList_none, eq_comm, Option.toList_eq_nil_iff,
      Sighting.report?_eq_none_iff, not_not, and_iff_right isKept]

end Trees

/-- A call whose callee is an identifier in parentheses becomes a call at the same place of the
syntax tree as without the parentheses, but without a callee. -/
theorem losesCallee (script : Script) {context : Context ConcreteLabel}
    {crumb : Crumb ConcreteLabel} {layers : Context ConcreteLabel} {identifier : Concrete}
    (place : script.root = fill context (crumb.fill (fill layers identifier)))
    (distinct : script.root.Distinct)
    (visited : IsVisited context (crumb.fill (fill layers identifier)))
    (enclosed : EnclosedCallee crumb layers identifier) :
    ∃ (around : Context Label) (below : List Tree),
      LosesCallee script (script.withRoot (fill context (crumb.fill identifier.asCallee)))
        (layers = []) (identifierText script.source identifier)
        (crumb.value.position script.source) around below := by
  rcases enclosed.exists_below script.source with ⟨below, wrapped, plain⟩
  rcases exists_around_syntaxTree script context _ visited with ⟨around, inside⟩
  have same : script.withRoot (fill context (crumb.fill (fill layers identifier))) = script := by
    rw [← place]
    rfl
  have tree := inside _ rfl rfl rfl (place ▸ distinct)
  have bareTree := inside (crumb.fill identifier.asCallee) rfl (by rw [plain, wrapped]; rfl)
    (by rw [plain, wrapped]; rfl) (Distinct.asCallee context crumb (place ▸ distinct))
  rw [same, wrapped] at tree
  rw [plain] at bareTree
  exact ⟨around, below, .of_trees tree bareTree⟩

def enclosedIdentifier : Concrete :=
  .node { type := "identifier", identity := 9, column := 16, start := 16, stop := 24 } []

def calleeParentheses : Crumb ConcreteLabel where
  value := { type := "parenthesized_expression", field := some "function", identity := 8
             column := 15, start := 15, stop := 25 }
  before := [.node { type := "(", named := false, identity := 10
                     column := 15, start := 15, stop := 16 } []]
  after := [.node { type := ")", named := false, identity := 11
                    column := 24, start := 24, stop := 25 } []]

def enclosedCall : Crumb ConcreteLabel where
  value := { type := "call_expression", identity := 7, column := 15, start := 15, stop := 30 }
  before := []
  after := [
    .node { type := "arguments", field := some "arguments", identity := 12
            column := 25, start := 25, stop := 30 } [
      .node { type := "identifier", identity := 13, column := 26, start := 26, stop := 29 } []]]

/-- A function in which another call comes after that one. -/
def aroundCall : Context ConcreteLabel :=
  [{ value := { type := "expression_statement", identity := 6
                column := 15, start := 15, stop := 31 }
     before := [], after := [] }, {
     value := { type := "statement_block", field := some "body", identity := 5
                column := 13, start := 13, stop := 40 }
     before := []
     after := [
      .node { type := "expression_statement", identity := 14
              column := 32, start := 32, stop := 38 } [
        .node { type := "call_expression", identity := 15
                column := 32, start := 32, stop := 37 } [
          .node { type := "identifier", field := some "function", identity := 16
                  column := 32, start := 32, stop := 35 } [],
          .node { type := "arguments", field := some "arguments", identity := 17
                  column := 35, start := 35, stop := 37 } []]]] }, {
     value := { type := "function_declaration", identity := 2, stop := 40 }
     before := [
      .node { type := "identifier", field := some "name", identity := 3
              column := 9, start := 9, stop := 10 } [],
      .node { type := "formal_parameters", field := some "parameters", identity := 4
              column := 10, start := 10, stop := 12 } []]
     after := [] }, {
     value := { type := "program", identity := 1, stop := 40 }
     before := [], after := [] }]

/-- A call whose callee stands in parentheses. -/
def enclosedCallback : Script where
  source := "function f() \x7b (callback)(err); log(); \x7d".toUTF8.toList
  root := fill aroundCall (enclosedCall.fill (fill [calleeParentheses] enclosedIdentifier))

theorem isParentheses_calleeParentheses : IsParentheses calleeParentheses :=
  ⟨rfl, rfl, by decide⟩

theorem enclosedCallee_callback :
    EnclosedCallee enclosedCall [calleeParentheses] enclosedIdentifier :=
  ⟨by decide, by decide, rfl, fun _ => rfl, List.forall_mem_singleton.mpr
    isParentheses_calleeParentheses⟩

theorem losesCallee_callback :
    enclosedCallback.root.Distinct ∧
      EnclosedCallee enclosedCall [calleeParentheses] enclosedIdentifier ∧
      ∃ (around : Context Label) (below : List Tree),
        LosesCallee enclosedCallback
          (enclosedCallback.withRoot
            (fill aroundCall (enclosedCall.fill enclosedIdentifier.asCallee)))
          ([calleeParentheses] = []) "callback" ⟨1, 16⟩ around below := by
  have distinct : enclosedCallback.root.Distinct := by decide
  have text : identifierText enclosedCallback.source enclosedIdentifier = "callback" := by
    decide +kernel
  have position : enclosedCall.value.position enclosedCallback.source = ⟨1, 16⟩ := by
    decide +kernel
  refine ⟨distinct, enclosedCallee_callback, ?_⟩
  have found := losesCallee enclosedCallback rfl distinct
    ⟨rfl, rfl, rfl, rfl, trivial⟩ enclosedCallee_callback
  rwa [text, position] at found

theorem check_enclosedCallback :
    enclosedCallback.root.Distinct ∧
      EnclosedCallee enclosedCall [calleeParentheses] enclosedIdentifier ∧
      (enclosedCallback.check ["callback"] none).diagnostics = [] ∧
      ((enclosedCallback.withRoot
        (fill aroundCall (enclosedCall.fill enclosedIdentifier.asCallee))).check ["callback"]
          none).diagnostics = [.missingReturn none ⟨1, 16⟩] := by
  have distinct : enclosedCallback.root.Distinct := by decide
  refine ⟨distinct, enclosedCallee_callback, ?_, ?_⟩
  · rw [check, Tree.check_eq, syntaxTree, lower?_eq _ distinct]
    decide +kernel
  · rw [check, Tree.check_eq, syntaxTree, withRoot,
      lower?_eq _ (Distinct.asCallee aroundCall enclosedCall distinct)]
    decide +kernel

end Script

end CallbackLint
