import CallbackLint.Proofs.Rule.Recursion

namespace CallbackLint

open Rose

/-!
# Locality of a check

What is found around a subtree depends on the subtree only through the kind of
its root: the ladder of a node outside never reads more of it.  So a subtree can
be replaced by another one of the same kind without a change to what is found
before and after it.  If it is a function, what is found inside is what a check of
the function alone finds.
-/

/-- The diagnostic for a node, if it is a call of one of the names and turns out
to be unguarded. -/
def Label.report? (names : List String) (path : Option String) (label : Label) :
    Option Diagnostic :=
  if label.kind = .call then
    label.callee.bind fun callee =>
      if names.contains callee then some (.missingReturn path label.position) else none
  else none

namespace Tree

/-! ## Around a subtree -/

/-- The calls before a place at which there is a subtree of a given kind. -/
def sightingsBefore (kind : Kind) : Context Label → List Sighting
  | [] => []
  | crumb :: context =>
    let rungs := ladder crumb.value.kind context
    sightingsBefore crumb.value.kind context ++ (crumb.value.sighting? rungs).toList ++
      sightingsAll crumb.value rungs 0 (some kind) crumb.before

def sightingsAfter : Context Label → List Sighting
  | [] => []
  | crumb :: context =>
    let rungs := ladder crumb.value.kind context
    sightingsAll crumb.value rungs (crumb.before.length + 1) none crumb.after ++
      sightingsAfter context

/-- The calls of a tree are those before, inside and after a subtree, and what
is seen of the subtree from outside is its kind. -/
theorem sightings_fill (context : Context Label) (tree : Tree) :
    sightings [] (fill context tree) =
      sightingsBefore tree.kind context ++ sightings (ladder tree.kind context) tree ++
        sightingsAfter context := by
  induction context generalizing tree with
  | nil =>
      simp only [fill, ladder, sightingsBefore, sightingsAfter, List.nil_append, List.append_nil]
  | cons crumb context inductionHypothesis =>
      have outside := inductionHypothesis (crumb.fill tree)
      have rootKind : Tree.kind (crumb.fill tree) = crumb.value.kind := rfl
      rw [rootKind, Crumb.fill, sightings, sightingsAll_append, sightingsAll] at outside
      rw [fill, Crumb.fill, outside, sightingsBefore, sightingsAfter, ladder]
      simp only [List.head?_cons, Option.map_some, Option.or_none, Nat.zero_add,
        List.append_assoc]
      rfl

/-! ## Where diagnostics come from -/

/-- What is reported for a node is the diagnostic that there is for it, or
nothing. -/
theorem report?_sighting? (names : List String) (path : Option String) (rungs : List Rung)
    (label : Label) :
    ((label.sighting? rungs).toList.filterMap (Sighting.report? names path)).Sublist
      (label.report? names path).toList := by
  rw [Label.sighting?, Label.report?]
  by_cases isCall : label.kind = .call
  · rw [if_pos isCall, if_pos isCall]
    cases label.callee with
    | none => exact List.Sublist.refl _
    | some callee =>
        rw [Option.map_some, Option.toList_some, Option.bind_some, List.filterMap_cons,
          Sighting.report?]
        by_cases reported : names.contains callee ∧ (Rung.placement rungs).verdict = .violating
        · rw [if_pos reported, if_pos reported.1]
          exact List.Sublist.refl _
        · rw [if_neg reported]
          exact List.nil_sublist _
  · rw [if_neg isCall, if_neg isCall]
    exact List.Sublist.refl _

mutual

/-- A check of a tree has diagnostics for some of its calls, in their order. -/
theorem reports_sublist (names : List String) (path : Option String) (rungs : List Rung) :
    (tree : Tree) →
    ((sightings rungs tree).filterMap (Sighting.report? names path)).Sublist
      (tree.preorder.filterMap (Label.report? names path))
  | .node label children => by
      rw [sightings, List.filterMap_append, filterMap_preorder]
      exact (report?_sighting? names path rungs label).append
        (reportsAll_sublist names path label rungs 0 none children)

theorem reportsAll_sublist (names : List String) (path : Option String) (upper : Label)
    (rungs : List Rung) (place : Nat) (next : Option Kind) : (trees : List Tree) →
    ((sightingsAll upper rungs place next trees).filterMap (Sighting.report? names path)).Sublist
      ((preorderAll trees).filterMap (Label.report? names path))
  | [] => List.Sublist.refl _
  | tree :: rest => by
      rw [sightingsAll, preorderAll, List.filterMap_append, List.filterMap_append]
      exact (reports_sublist names path _ tree).append
        (reportsAll_sublist names path upper rungs (place + 1) next rest)

end

theorem reportsBefore_sublist (names : List String) (path : Option String) (kind : Kind)
    (context : Context Label) :
    ((sightingsBefore kind context).filterMap (Sighting.report? names path)).Sublist
      ((preorderBefore context).filterMap (Label.report? names path)) := by
  induction context generalizing kind with
  | nil => exact List.Sublist.refl _
  | cons crumb context inductionHypothesis =>
      have node : ((crumb.value :: preorderAll crumb.before).filterMap (Label.report? names path)) =
          (crumb.value.report? names path).toList ++
            (preorderAll crumb.before).filterMap (Label.report? names path) :=
        filterMap_preorder (Label.report? names path) crumb.value crumb.before
      rw [sightingsBefore, preorderBefore, List.filterMap_append, List.filterMap_append,
        List.filterMap_append, node, List.append_assoc]
      exact (inductionHypothesis crumb.value.kind).append
        ((report?_sighting? names path _ crumb.value).append
          (reportsAll_sublist names path crumb.value _ 0 (some kind) crumb.before))

theorem reportsAfter_sublist (names : List String) (path : Option String)
    (context : Context Label) :
    ((sightingsAfter context).filterMap (Sighting.report? names path)).Sublist
      ((preorderAfter context).filterMap (Label.report? names path)) := by
  induction context with
  | nil => exact List.Sublist.refl _
  | cons crumb context inductionHypothesis =>
      rw [sightingsAfter, preorderAfter, List.filterMap_append, List.filterMap_append]
      exact (reportsAll_sublist names path crumb.value _ _ none crumb.after).append
        inductionHypothesis

/-! ## Replacing a subtree -/

/-- What a check reports around and inside a subtree.  The parts are in the order of the report, so
for another subtree in its place it is the middle part alone that changes. -/
structure ReportsSplit (names : List String) (path : Option String) (context : Context Label)
    (tree : Tree) (before inside after : List Diagnostic) : Prop where
  whole : (check (fill context tree) names path).diagnostics = before ++ inside ++ after
  /-- The first diagnostics are for calls that come before the subtree. -/
  callsBefore :
    before.Sublist ((preorderBefore context).filterMap (Label.report? names path))
  /-- The next ones are for calls of the subtree. -/
  callsInside : inside.Sublist (tree.preorder.filterMap (Label.report? names path))
  /-- The last ones are for calls that come after the subtree. -/
  callsAfter : after.Sublist ((preorderAfter context).filterMap (Label.report? names path))
  /-- A function is judged as if there were nothing around it. -/
  alone : tree.kind = .function → inside = (tree.check names path).diagnostics

/-- What is reported before and after a subtree is read off its context and the
kind of its root. -/
theorem reportsSplit (names : List String) (path : Option String) (context : Context Label)
    (tree : Tree) :
    ReportsSplit names path context tree
      ((sightingsBefore tree.kind context).filterMap (Sighting.report? names path))
      ((sightings (ladder tree.kind context) tree).filterMap (Sighting.report? names path))
      ((sightingsAfter context).filterMap (Sighting.report? names path)) where
  whole := by
    rw [check_eq, sightings_fill, List.filterMap_append, List.filterMap_append]
  callsBefore := reportsBefore_sublist names path tree.kind context
  callsInside := reports_sublist names path _ tree
  callsAfter := reportsAfter_sublist names path context
  alone := by
    intro isFunction
    rw [check_eq, sightings_of_function isFunction]

/-- A subtree is replaced by another one of the same kind.  What is reported
before and after it stays. -/
theorem check_replace (context : Context Label) (old new : Tree) (sameKind : old.kind = new.kind)
    (names : List String) (path : Option String) :
    ∃ before insideOld insideNew after : List Diagnostic,
      ReportsSplit names path context old before insideOld after ∧
        ReportsSplit names path context new before insideNew after := by
  have splitOld := reportsSplit names path context old
  have splitNew := reportsSplit names path context new
  rw [← sameKind] at splitNew
  exact ⟨_, _, _, _, splitOld, splitNew⟩

/-- The inside of a function, between two statements that are calls. -/
def betweenCalls : Context Label :=
  let position : Position := ⟨1, 1⟩
  let statement : Tree := plain .expressionStatement position
    [.node { kind := .call, position, callee := some "callback" } []]
  [{ value := { kind := .block, position }, before := [statement], after := [statement] },
    { value := { kind := .function, position, body := some 0 }, before := [], after := [] },
    { value := { kind := .program, position }, before := [], after := [] }]

/-- A function whose body is a block of some statements. -/
def functionOf (statements : List Tree) : Tree :=
  .node { kind := .function, position := ⟨1, 1⟩, body := some 0 }
    [plain .block ⟨1, 1⟩ statements]

theorem check_replace_betweenCalls :
    (functionOf []).kind = (functionOf [functionOf []]).kind ∧
      ∃ before insideOld insideNew after : List Diagnostic,
        ReportsSplit ["callback"] none betweenCalls (functionOf []) before insideOld after ∧
          ReportsSplit ["callback"] none betweenCalls (functionOf [functionOf []]) before insideNew
            after :=
  ⟨rfl, check_replace betweenCalls (functionOf []) (functionOf [functionOf []]) rfl
    ["callback"] none⟩

end Tree

end CallbackLint
