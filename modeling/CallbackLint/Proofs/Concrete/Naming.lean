import CallbackLint.Proofs.Concrete.WellFormed
import CallbackLint.Proofs.Rule.Recursion
import CallbackLint.Proofs.Text.Encoding

namespace CallbackLint

open Rose

/-!
# Names that can match

The callee of a call is the text of an identifier without the blanks around it.  So every
callee in the syntax tree of a script is such a text, whatever the concrete tree, and a name
that ends in a blank is the callee of no call in any script.  Any text without blanks is the
callee of some call.
-/

/-! ## Blanks -/

theorem isBlank_of_getLast?_trimBlanks {text : List Char} {char : Char}
    (last : (trimBlanks text).getLast? = some char) : isBlank char = false := by
  rw [trimBlanks, List.getLast?_reverse] at last
  have front := List.head?_dropWhile_not isBlank (text.dropWhile isBlank).reverse
  rw [last] at front
  exact front

theorem trimBlanks_eq_self {text : List Char} (noBlank : ∀ char ∈ text, isBlank char = false) :
    trimBlanks text = text := by
  have keeps (part : List Char) (noBlank : ∀ char ∈ part, isBlank char = false) :
      part.dropWhile isBlank = part := by
    cases part with
    | nil => rfl
    | cons char rest => simp [noBlank char List.mem_cons_self]
  rw [trimBlanks, keeps text noBlank, keeps text.reverse, List.reverse_reverse]
  intro char member
  exact noBlank char (List.mem_reverse.mp member)

/-! ## Callees of a script -/

/-- A text is that of an identifier of a source, without the blanks around it. -/
def IsCalleeIn (source : List UInt8) (callee : String) : Prop :=
  ∃ node, Lowering.calleeOf? source node = some callee

theorem IsCalleeIn.isBlank_eq_false {source : List UInt8} {callee : String} {char : Char}
    (isCallee : IsCalleeIn source callee) (last : callee.toList.getLast? = some char) :
    isBlank char = false := by
  rcases isCallee with ⟨node, read⟩
  unfold Lowering.calleeOf? at read
  split at read
  · cases read
  · split at read
    · cases read
      rw [String.toList_ofList] at last
      exact isBlank_of_getLast?_trimBlanks last
    · cases read

/-- All callees of a tree are those of a source. -/
def Tree.IsNamedIn (source : List UInt8) (tree : Tree) : Prop :=
  ∀ label ∈ tree.preorder, ∀ callee ∈ label.callee, IsCalleeIn source callee

namespace Tree

variable {source : List UInt8}

/-- A name that is no callee of the source makes no difference. -/
theorem check_cons_of_notCallee {tree : Tree} (named : tree.IsNamedIn source) {name : String}
    (notCallee : ¬ IsCalleeIn source name) (names : List String) (path : Option String) :
    tree.check (name :: names) path = tree.check names path := by
  have among sighting (member : sighting ∈ tree.sightings []) :
      (name :: names).contains sighting.callee = names.contains sighting.callee := by
    have other : sighting.callee ≠ name := by
      rintro rfl
      rcases exists_label_of_mem_sightings tree member with ⟨label, inside, isCallee, _⟩
      exact notCallee (named label inside _ isCallee)
    simp [other]
  rw [check_eq, check_eq]
  congr 1
  · apply List.filterMap_congr
    intro sighting member
    rw [Sighting.report?, Sighting.report?, among sighting member]
  · apply List.filterMap_congr
    intro sighting member
    rw [Sighting.note?, Sighting.note?, among sighting member]

end Tree

namespace Script

open Lowering Concrete

/-- All callees of the syntax tree of a script are those of its source. -/
theorem isNamedIn_syntaxTree (script : Script) : script.syntaxTree.IsNamedIn script.source := by
  refine @forall_preorder_syntaxTree
    (fun label => ∀ callee ∈ label.callee, IsCalleeIn script.source callee) script ?_ ?_
  · intro node _ label stands callee isCallee
    exact ⟨node, stands.2 callee isCallee⟩
  · intro first label _ isBlock callee isCallee
    rw [isBlock.2] at isCallee
    cases isCallee

/-- A name that ends in a blank makes no difference to any script. -/
theorem check_cons_of_blank (script : Script) {name : String} {char : Char}
    (last : name.toList.getLast? = some char) (blank : isBlank char = true)
    (names : List String) (path : Option String) :
    script.check (name :: names) path = script.check names path := by
  have notCallee : ¬ IsCalleeIn script.source name := by
    intro isCallee
    rw [isCallee.isBlank_eq_false last] at blank
    cases blank
  unfold check
  rw [Tree.check_cons_of_notCallee script.isNamedIn_syntaxTree notCallee]

/-! ## A script for a name -/

/-- The concrete tree of a function that calls an identifier, which begins at byte 15, and goes
on after it. -/
def callingRoot (stop : Nat) : Concrete :=
  .node { type := "program", identity := 1, stop := stop + 7 } [
    .node { type := "function_declaration", identity := 2, stop := stop + 7 } [
      .node { type := "identifier", field := some "name", identity := 3
              column := 9, start := 9, stop := 10 } [],
      .node { type := "formal_parameters", field := some "parameters", identity := 4
              column := 10, start := 10, stop := 12 } [],
      .node { type := "statement_block", field := some "body", identity := 5
              column := 13, start := 13, stop := stop + 7 } [
        .node { type := "expression_statement", identity := 6
                column := 15, start := 15, stop := stop + 3 } [
          .node { type := "call_expression", identity := 7
                  column := 15, start := 15, stop := stop + 2 } [
            .node { type := "identifier", field := some "function", identity := 8
                    column := 15, start := 15, stop } [],
            .node { type := "arguments", field := some "arguments", identity := 9
                    column := stop, start := stop, stop := stop + 2 } []]],
        .node { type := "empty_statement", identity := 10
                column := stop + 4, start := stop + 4, stop := stop + 5 } []]]]

/-- A function that calls an identifier of the given name and goes on after it. -/
def calling (name : String) : Script where
  source := Utf8.encode "function f() \x7b ".toList ++
    (Utf8.encode name.toList ++ Utf8.encode "(); ; \x7d".toList)
  root := callingRoot (15 + (Utf8.encode name.toList).length)

theorem distinct_calling (name : String) : (calling name).root.Distinct := by
  show ([1, 2, 3, 4, 5, 6, 7, 8, 9, 10] : List Int).Nodup
  decide

theorem sightings_callingRoot (source : List UInt8) (stop : Nat) (position : Position) :
    ∃ place, Tree.sightings [] (wrapProgram position (lowerDirectly source (callingRoot stop))) =
      [{ callee := String.ofList (trimBlanks (Utf8.decodeDropping (sliceBytes source 15 stop))),
         position := place, placement := .unguarded }] := by
  simp [callingRoot, lowerDirectly, lowerAllDirectly, build, wrapperTypes, isCall, functionTypes,
    caseTypes, plainKind, loopTypes, typeInRole?, childInRole?, identityInRole?, present,
    bodyPlace?, placeOf, ConcreteLabel.isVisible, Tree.plain, wrapProgram, Tree.kind, calleeOf?,
    Tree.sightings, Tree.sightingsAll, Label.sighting?, Rung.placement, Rung.isFunction,
    Rung.isReturnOperand, Rung.isImplicitReturn, Rung.isFollowedByReturn, Rung.isGuarded,
    Rung.isFunctionTail, Rung.isBody, ConcreteLabel.bytes, Kind.isStatementList]

theorem sliceBytes_middle (before middle after : List UInt8) :
    sliceBytes (before ++ (middle ++ after)) before.length (before.length + middle.length) =
      middle := by
  have inside : ¬ (before.length : Int) < 0 := Int.not_lt.mpr (Int.natCast_nonneg _)
  simp [sliceBytes, inside]

theorem sliceBytes_calling (name : String) :
    sliceBytes (calling name).source 15 (15 + (Utf8.encode name.toList).length) =
      Utf8.encode name.toList := by
  have found := sliceBytes_middle (Utf8.encode "function f() \x7b ".toList)
    (Utf8.encode name.toList) (Utf8.encode "(); ; \x7d".toList)
  have size : (Utf8.encode "function f() \x7b ".toList).length = 15 := by decide +kernel
  rw [size] at found
  exact found

/-- A name without blanks is called by some script, which is reported for it. -/
theorem exists_reported_of_noBlank {name : String}
    (noBlank : ∀ char ∈ name.toList, isBlank char = false) :
    ∃ script : Script, ∃ place,
      (script.check [name] none).diagnostics = [.missingReturn none place] := by
  rcases sightings_callingRoot (calling name).source (15 + (Utf8.encode name.toList).length)
    ((calling name).root.value.position (calling name).source) with ⟨place, seen⟩
  rw [sliceBytes_calling, Utf8.decodeDropping_encode, trimBlanks_eq_self noBlank,
    String.ofList_toList] at seen
  refine ⟨calling name, place, ?_⟩
  have seenToo : (calling name).syntaxTree.sightings [] =
      [{ callee := name, position := place, placement := .unguarded }] := by
    rw [syntaxTree, lower?_eq _ (distinct_calling name)]
    exact seen
  rw [check, Tree.check_eq, seenToo]
  simp [Sighting.report?, Placement.verdict]

end Script

end CallbackLint
