import CallbackLint.Concrete.Lowering
import CallbackLint.Proofs.Concrete.Matching

namespace CallbackLint

open Rose

/-!
# Checking a script follows the concrete tree

Lowering and checking are taken together.  By induction on the concrete tree, what
the check of a lowered node reports under a ladder is what the rule on the concrete
tree reports below the matching levels.  The program that is put around a script
shows on no ladder that matters, since a function hides it.
-/

namespace Concrete

open Lowering

/-! ## One place -/

variable (source : List UInt8) (names : List String) (path : Option String)

open Classical in
/-- The diagnostics for those among some places that violate the rule. -/
noncomputable def reported (places : List (Focus Concrete)) : List Diagnostic :=
  (places.filter fun place => decide (Violates source names place)).map fun place =>
    .missingReturn path (place.2.value.value.position source)

theorem reported_append (first second : List (Focus Concrete)) :
    reported source names path (first ++ second) =
      reported source names path first ++ reported source names path second := by
  rw [reported, List.filter_append, List.map_append]
  rfl

theorem reported_cons (place : Focus Concrete) (rest : List (Focus Concrete)) :
    reported source names path (place :: rest) =
      reported source names path [place] ++ reported source names path rest :=
  reported_append source names path [place] rest

open Classical in
theorem reported_singleton (place : Focus Concrete) :
    reported source names path [place] =
      (if Violates source names place then
        some (Diagnostic.missingReturn path (place.2.value.value.position source))
      else none).toList := by
  rw [reported, List.filter_cons, List.filter_nil]
  by_cases violates : Violates source names place
  · rw [if_pos violates, if_pos (decide_eq_true violates)]
    rfl
  · rw [if_neg violates, if_neg (ne_true_of_eq_false (decide_eq_false violates))]
    rfl

theorem callsOneOf_iff (node : Concrete) :
    CallsOneOf source names node ↔
      isCall node = true ∧ ∃ callee, calleeOf? source node = some callee ∧ callee ∈ names := by
  rw [isCall, Bool.and_eq_true, beq_iff_eq, bne_iff_ne, calleeOf?]
  constructor
  · rintro ⟨type, arguments, callee, found, identifier, listed⟩
    rw [found]
    exact ⟨⟨type, arguments⟩, _, if_pos identifier, listed⟩
  · rintro ⟨⟨type, arguments⟩, name, found, listed⟩
    cases child : node.childInRole? "function" with
    | none =>
        rw [child] at found
        cases found
    | some callee =>
        rw [child] at found
        by_cases identifier : callee.value.type = "identifier"
        · simp only [if_pos identifier, Option.some.injEq] at found
          exact ⟨type, arguments, callee, child, identifier, found ▸ listed⟩
        · simp only [if_neg identifier] at found
          cases found

theorem reported_of_not_call {node : Concrete} (noCall : node.kind ≠ .call)
    (context : Context Concrete) (below : List (Rose Concrete)) :
    reported source names path [(context, .node node below)] = [] := by
  rw [reported_singleton, if_neg]
  · rfl
  · rintro ⟨calls, _⟩
    rw [callsOneOf_iff, ← kind_eq_call_iff] at calls
    exact noCall calls.1

/-- A node is reported as its place is. -/
theorem report?_place {node : Concrete} {label : Label} (isLabel : IsLabelOf source node label)
    {context : Context Concrete} {rungs : List Rung}
    (matching : Level.Matches (levels node context) rungs) (below : List (Rose Concrete)) :
    (label.sighting? rungs).toList.filterMap (Sighting.report? names path) =
      reported source names path [(context, .node node below)] := by
  have violates : Violates source names (context, .node node below) ↔
      (label.kind = .call ∧ ∃ callee, label.callee = some callee ∧ callee ∈ names) ∧
        (Rung.placement rungs).verdict = .violating := by
    rw [matching.verdict_iff]
    apply and_congr_left
    intro _
    rw [value_node, callsOneOf_iff, ← kind_eq_call_iff, ← isLabel.kind]
    apply and_congr_right
    intro labelCall
    rw [isLabel.callee labelCall]
  rw [Sighting.filterMap_toList, Label.sighting?, Sighting.bind_report?, reported_singleton,
    violates, isLabel.position]
  split_ifs
  · rfl
  · rfl

/-! ## The places below one -/

/-- Below a node everything that is found is what the rule says, wherever the node
stands. -/
def Agrees (node : Concrete) : Prop :=
  ∀ (context : Context Concrete) (rungs : List Rung),
    Level.Matches (levels node context) rungs →
      (Tree.sightings rungs (lowerDirectly source node)).filterMap (Sighting.report? names path) =
        reported source names path (placesFrom context node.reading)

/-- Siblings are checked one after the other, before the siblings `beyond`. -/
theorem reports_siblings {node : Concrete} (notCollapsed : node.isCollapsed = false)
    (context : Context Concrete) (upper : Label) (rungs : List Rung) (next : Option Kind)
    (before : List (Rose Concrete)) (place : Nat) (trees beyond : List Concrete)
    (each : ∀ child ∈ trees, Agrees source names path child)
    (matching : ∀ left child right, trees = left ++ child :: right →
      Level.Matches
        ({ node, top := child, after := right ++ beyond } :: levels node context)
        ({ upper, place := place + left.length, lower := child.strip.kind
           next := (right.head?.map fun next => next.strip.kind).or next } :: rungs)) :
    (Tree.sightingsAll upper rungs place next (trees.map (lowerDirectly source))).filterMap
        (Sighting.report? names path) =
      reported source names path
        (placesBelow node context before (beyond.map reading) (trees.map reading)) := by
  -- Siblings that are done move over to `before`, and the place moves on by one.
  induction trees generalizing before place with
  | nil => rfl
  | cons child rest inductionHypothesis =>
      have kinds : (rest.map (lowerDirectly source)).head?.map Tree.kind =
          rest.head?.map fun next => next.strip.kind := by
        rw [List.head?_map, Option.map_map]
        apply congrArg (fun change => rest.head?.map change)
        funext sibling
        exact kind_lowerDirectly source sibling
      have here := matching [] child rest rfl
      rw [List.length_nil, Nat.add_zero] at here
      have first := each child List.mem_cons_self
        ({ value := node, before, after := rest.map reading ++ beyond.map reading } :: context)
      rw [levels, if_neg (ne_true_of_eq_false notCollapsed), ← List.map_append,
        map_value_reading] at first
      have later := inductionHypothesis (before ++ [child.reading]) (place + 1)
        (fun other member => each other (List.mem_cons_of_mem _ member)) (by
          intro left other right split
          have lower := matching (child :: left) other right (by rw [split, List.cons_append])
          rw [List.length_cons, Nat.add_comm left.length, ← Nat.add_assoc] at lower
          exact lower)
      have own : (lowerDirectly source child).value.kind = child.strip.kind :=
        kind_lowerDirectly source child
      rw [List.map_cons, List.map_cons, Tree.sightingsAll, List.filterMap_append, placesBelow,
        reported_append, later, kinds, own, ← List.map_append, first _ here]

theorem Agrees.of_collapsed {node inner : Concrete} (collapsed : node.isCollapsed = true)
    (single : node.visibleChildren = [inner]) (inside : Agrees source names path inner) :
    Agrees source names path node := by
  intro context rungs matching
  have kindEq := kind_of_wrapper (exists_of_isCollapsed collapsed).1
  have noCase : ¬ node.isCase = true := by
    rw [← kind_eq_switchCase_iff, kindEq]
    decide
  have noCall : node.kind ≠ .call := by
    rw [kindEq]
    decide
  have below := inside ({ value := node, before := [], after := [] } :: context) rungs
  rw [levels, if_pos collapsed] at below
  rw [lowerDirectly_of_collapsed source collapsed single, below matching, reading_eq node, single,
    valueFirst, if_neg noCase, placesFrom, reported_cons,
    reported_of_not_call source names path noCall, List.map_cons, List.map_nil, placesBelow,
    placesBelow, List.append_nil]
  rfl

theorem Agrees.of_plain {node : Concrete} (notCollapsed : node.isCollapsed = false)
    (noCase : node.isCase = false) (distinct : node.Distinct)
    (each : ∀ child ∈ node.visibleChildren, Agrees source names path child) :
    Agrees source names path node := by
  intro context rungs matching
  rcases lowerDirectly_of_plain source notCollapsed noCase with ⟨label, isLabel, shape⟩
  have surroundings : ∀ left child right, node.visibleChildren = left ++ child :: right →
      Level.Matches ({ node, top := child, after := right ++ [] } :: levels node context)
        ({ upper := label, place := 0 + left.length, lower := child.strip.kind
           next := (right.head?.map fun next => next.strip.kind).or none } :: rungs) := by
    intro left child right split
    apply Level.Matches.plain noCase isLabel.kind
    · intro isFunction
      rw [Rung.isBody, isLabel.body isFunction, Nat.zero_add]
      exact bodyPlace?_eq source distinct.siblings split
    · rfl
    · rw [Option.or_none, List.append_nil]
    · exact matching
  have below := reports_siblings source names path notCollapsed context label rungs none [] 0
    node.visibleChildren [] each surroundings
  rw [shape, Tree.sightings, List.filterMap_append, below, reading_eq, valueFirst, noCase,
    if_neg Bool.false_ne_true, placesFrom, reported_cons,
    report?_place source names path isLabel matching]
  rfl

/-- The calls of a `case` are those of its value and then those of the block. -/
theorem sightings_of_case {label blockLabel : Label} (labelKind : label.kind = .switchCase)
    (blockKind : blockLabel.kind = .block) (rungs : List Rung) (values statements : List Tree) :
    Tree.sightings rungs (.node label (values ++ [.node blockLabel statements])) =
      Tree.sightingsAll label rungs 0 (some .block) values ++
        Tree.sightingsAll blockLabel
          ({ upper := label, place := values.length, lower := .block, next := none } :: rungs) 0
          none statements := by
  have kindOfBlock : Tree.kind (.node blockLabel statements) = .block := blockKind
  have labelNoCall : label.kind ≠ .call := by
    rw [labelKind]
    decide
  have blockNoCall : blockLabel.kind ≠ .call := by
    rw [blockKind]
    decide
  rw [Tree.sightings, Label.sighting?_of_not_call labelNoCall, Tree.sightingsAll_append,
    Tree.sightingsAll, Tree.sightings, Label.sighting?_of_not_call blockNoCall,
    Tree.sightingsAll, List.append_nil, Nat.zero_add, value_node, blockKind, List.head?_cons,
    Option.map_some, kindOfBlock]
  rfl

theorem Agrees.of_case {node : Concrete} (isCase : node.isCase = true)
    (each : ∀ child ∈ node.visibleChildren, Agrees source names path child) :
    Agrees source names path node := by
  intro context rungs matching
  rcases lowerDirectly_of_case source isCase with ⟨label, blockLabel, labelKind, blockKind, shape⟩
  have kindEq := kind_eq_switchCase_iff.mpr isCase
  have noCall : node.kind ≠ .call := by
    rw [kindEq]
    decide
  have notCollapsed : node.isCollapsed = false := by
    apply Bool.eq_false_iff.mpr
    intro collapsed
    exact Kind.noConfusion (kindEq.symm.trans (kind_of_wrapper (exists_of_isCollapsed collapsed).1))
  -- The value and the statements are two runs of siblings, with a rung more for the second.
  let values := node.visibleChildren.filter fun child => node.isInRole "value" child
  let statements := node.visibleChildren.filter fun child => !node.isInRole "value" child
  let outer : Rung :=
    { upper := label, place := values.length, lower := .block, next := none }
  have ofValues := reports_siblings source names path notCollapsed context label rungs
    (some .block) [] 0 values statements
    (fun child member => each child (List.mem_filter.mp member).1)
    (by
      intro left child right split
      have member : child ∈ values := split ▸ List.mem_append_right _ List.mem_cons_self
      exact Level.Matches.value isCase (List.mem_filter.mp member).2 labelKind matching)
  have ofStatements := reports_siblings source names path notCollapsed context blockLabel
    (outer :: rungs) none (values.map reading) 0 statements []
    (fun child member => each child (List.mem_filter.mp member).1)
    (by
      intro left child right split
      have member : child ∈ statements := split ▸ List.mem_append_right _ List.mem_cons_self
      have isStatement := (List.mem_filter.mp member).2
      rw [Bool.not_eq_true'] at isStatement
      apply Level.Matches.statement isCase isStatement blockKind labelKind
      · rw [Option.or_none, List.append_nil]
      · exact matching)
  rw [shape, sightings_of_case labelKind blockKind, List.length_map, List.filterMap_append,
    ofValues, ofStatements, reading_eq, valueFirst_of_case isCase, placesFrom, reported_cons,
    reported_of_not_call source names path noCall, placesBelow_append, reported_append,
    List.append_nil]
  rfl

/-- With different identities, the rule on the concrete tree says what is found. -/
theorem agrees (node : Concrete) (distinct : node.Distinct) : Agrees source names path node := by
  induction node using Rose.induct with
  | node label children inductionHypothesis =>
      have each : ∀ child ∈ visibleChildren (.node label children),
          Agrees source names path child := by
        intro child member
        have listed := (List.mem_filter.mp member).1
        exact inductionHypothesis child listed (distinct.child listed)
      cases collapsed : isCollapsed (.node label children) with
      | true =>
          rcases (exists_of_isCollapsed collapsed).2 with ⟨inner, single⟩
          exact Agrees.of_collapsed source names path collapsed single
            (each inner (single ▸ List.mem_cons_self))
      | false =>
          cases isCase : Concrete.isCase (.node label children) with
          | true => exact Agrees.of_case source names path isCase each
          | false => exact Agrees.of_plain source names path collapsed isCase distinct each

end Concrete

/-! ## Whole scripts -/

/-- A program around a tree is not seen from the functions in it. -/
theorem Lowering.sightings_wrapProgram (position : Position) (tree : Tree) :
    Tree.sightings [] (wrapProgram position tree) = Tree.sightings [] tree := by
  rw [wrapProgram]
  split
  · rfl
  · let rung : Rung :=
      { upper := { kind := .program, position }, place := 0, lower := tree.kind, next := none }
    have hides : Rung.Hides [] [rung] := by
      intro impossible
      cases impossible
    have noCall : Label.kind { kind := .program, position } ≠ .call := by
      intro impossible
      cases impossible
    rw [Tree.plain, Tree.sightings, Label.sighting?_of_not_call noCall, Tree.sightingsAll,
      Tree.sightingsAll, List.append_nil]
    exact Tree.sightings_append hides tree

namespace Script

open Classical in
/-- A check of a script reports exactly the calls that violate the rule on its
concrete tree, in reading order, each once and at its position. -/
theorem check_reports_places (script : Script) (distinct : script.root.Distinct)
    (names : List String) (path : Option String) :
    (script.check names path).diagnostics =
      ((places script.root.reading).filter fun place =>
        decide (Concrete.Violates script.source names place)).map fun place =>
          .missingReturn path (place.2.value.value.position script.source) := by
  have agrees := Concrete.agrees script.source names path script.root distinct [] [] .nil
  rw [check, Tree.check_eq, syntaxTree, Lowering.lower?_eq script.source distinct, Option.getD_some,
    Lowering.sightings_wrapProgram, agrees]
  rfl

/-- A function with a `switch` of a single branch, where the value of the branch
and its first statement are calls.  Only the statement is followed by a `return`. -/
def singleBranch : Script where
  source := "function f(){switch(x){case callback():callback();return}}".toUTF8.toList
  root :=
    node { type := "program", identity := 1, stop := 58 } [
      node { type := "function_declaration", identity := 2, stop := 58 } [
        node { type := "statement_block", field := some "body", identity := 3,
               column := 12, start := 12, stop := 58 } [
          node { type := "switch_statement", identity := 4,
                 column := 13, start := 13, stop := 57 } [
            node { type := "switch_body", field := some "body", identity := 5,
                   column := 22, start := 22, stop := 57 } [
              node { type := "switch_case", identity := 6,
                     column := 23, start := 23, stop := 56 } [
                node { type := "call_expression", field := some "value", identity := 7,
                       column := 28, start := 28, stop := 38 } [
                  node { type := "identifier", field := some "function", identity := 8,
                         column := 28, start := 28, stop := 36 } []],
                node { type := "expression_statement", field := some "body", identity := 9,
                       column := 39, start := 39, stop := 50 } [
                  node { type := "call_expression", identity := 10,
                         column := 39, start := 39, stop := 49 } [
                    node { type := "identifier", field := some "function", identity := 11,
                           column := 39, start := 39, stop := 47 } []]],
                node { type := "return_statement", field := some "body", identity := 12,
                       column := 50, start := 50, stop := 56 } []]]]]]]

open Classical in
theorem check_reports_singleBranch :
    singleBranch.root.Distinct ∧
      (singleBranch.check ["callback"] none).diagnostics =
        ((places singleBranch.root.reading).filter fun place =>
          decide (Concrete.Violates singleBranch.source ["callback"] place)).map fun place =>
            .missingReturn none (place.2.value.value.position singleBranch.source) :=
  ⟨by decide, check_reports_places singleBranch (by decide) ["callback"] none⟩

end Script

end CallbackLint
