import CallbackLint.Proofs.Rose.Bracketing

namespace CallbackLint

/-!
# Moments of a traversal

A traversal may be stopped at any of its steps.  What it has entered and not left by then
is the way from the place of the step up to the root, and the siblings that it has left are
those before the place.  The step that comes next after a node has been left is read off
the place as well: the next sibling is entered, or the node above is left.

Values occur once here, so that a step belongs to one place.
-/

namespace Rose

variable {α : Type} {context : Context α}

/-- The values that some steps enter and do not leave again, the last one first. -/
def underway [DecidableEq α] (steps : List (Visit α)) : List α :=
  (steps.filterMap Visit.entered?).reverse.filter fun value => decide (.leave value ∉ steps)

/-! ## Before a place -/

theorem leave_mem_visitsAll_iff {value : α} {trees : List (Rose α)} :
    Visit.leave value ∈ visitsAll trees ↔ value ∈ preorderAll trees := by
  rw [(visitsAll_perm trees).mem_iff, pairsOf]
  simp

/-- A traversal enters the values before a place in preorder. -/
theorem filterMap_entered?_visitsBefore (context : Context α) :
    (visitsBefore context).filterMap Visit.entered? = preorderBefore context := by
  induction context with
  | nil => rfl
  | cons crumb context inductionHypothesis =>
      have enters : Visit.entered? (.enter crumb.value) = some crumb.value := rfl
      rw [visitsBefore, List.filterMap_append, inductionHypothesis,
        List.filterMap_cons_some enters, filterMap_entered?_visitsAll, preorderBefore]

/-- Before a place no value is left that comes later. -/
theorem mem_preorderBefore_of_leave_mem {value : α}
    (member : Visit.leave value ∈ visitsBefore context) : value ∈ preorderBefore context := by
  induction context with
  | nil => cases member
  | cons crumb context inductionHypothesis =>
      rw [visitsBefore, List.mem_append, List.mem_cons, leave_mem_visitsAll_iff] at member
      rw [preorderBefore]
      rcases member with above | impossible | before
      · exact List.mem_append_left _ (inductionHypothesis above)
      · cases impossible
      · exact List.mem_append_right _ (List.mem_cons_of_mem _ before)

/-- Between the node above a place and the place itself, just the siblings on the way are
left, and what is below them. -/
theorem leave_mem_visitsBefore_cons {crumb : Crumb α} {value : α} :
    Visit.leave value ∈ visitsBefore (crumb :: context) ↔
      Visit.leave value ∈ visitsBefore context ∨ value ∈ preorderAll crumb.before := by
  rw [visitsBefore, List.mem_append, List.mem_cons, leave_mem_visitsAll_iff]
  simp

/-- What is underway when a traversal comes to a place is what is above the place. -/
theorem underway_visitsBefore [DecidableEq α] (distinct : (preorderBefore context).Nodup) :
    underway (visitsBefore context) = valuesAbove context := by
  induction context with
  | nil => rfl
  | cons crumb context inductionHypothesis =>
      rw [preorderBefore, List.nodup_append, List.nodup_cons] at distinct
      rcases distinct with ⟨outside, ⟨notBelow, _⟩, apart⟩
      have notLeft : Visit.leave crumb.value ∉ visitsBefore (crumb :: context) := by
        rw [leave_mem_visitsBefore_cons]
        rintro (above | before)
        · exact apart _ (mem_preorderBefore_of_leave_mem above) _ List.mem_cons_self rfl
        · exact notBelow before
      have passed : (preorderAll crumb.before).reverse.filter
          (fun value => decide (.leave value ∉ visitsBefore (crumb :: context))) = [] := by
        rw [List.filter_eq_nil_iff]
        intro value member
        rw [decide_eq_true_eq, not_not]
        exact leave_mem_visitsBefore_cons.mpr (Or.inr (List.mem_reverse.mp member))
      have here : [crumb.value].filter
          (fun value => decide (.leave value ∉ visitsBefore (crumb :: context))) =
            [crumb.value] := by
        rw [List.filter_eq_self]
        intro value member
        rw [List.mem_singleton.mp member]
        exact decide_eq_true notLeft
      have higher : (preorderBefore context).reverse.filter
          (fun value => decide (.leave value ∉ visitsBefore (crumb :: context))) =
            valuesAbove context := by
        rw [← inductionHypothesis outside, underway, filterMap_entered?_visitsBefore]
        apply List.filter_congr
        intro value member
        have notBefore : value ∉ preorderAll crumb.before := fun before =>
          apart value (List.mem_reverse.mp member) value (List.mem_cons_of_mem _ before) rfl
        simp only [leave_mem_visitsBefore_cons, notBefore, or_false]
      rw [underway, filterMap_entered?_visitsBefore, preorderBefore, List.reverse_append,
        List.reverse_cons, List.filter_append, List.filter_append, passed, here, higher,
        List.nil_append, List.singleton_append, valuesAbove_cons]

/-! ## After a place -/

/-- The first step after a place has been left. -/
theorem head?_visitsAfter (crumb : Crumb α) (context : Context α) :
    (visitsAfter (crumb :: context)).head? =
      match crumb.after.head? with
      | some next => some (.enter next.value)
      | none => some (.leave crumb.value) := by
  rw [visitsAfter]
  cases crumb.after with
  | nil => rfl
  | cons next rest =>
      cases next with
      | node value children => rfl

/-- Each leave step of a traversal belongs to a place, and the steps around it are those
that the place determines. -/
theorem exists_place_of_leave {tree : Rose α} {value : α} {before after : List (Visit α)}
    (distinct : tree.preorder.Nodup) (split : tree.visits = before ++ .leave value :: after) :
    ∃ context children, tree = fill context (.node value children) ∧
      before = visitsBefore context ++ .enter value :: visitsAll children ∧
      after = visitsAfter context := by
  have member : Visit.leave value ∈ tree.visits := by
    rw [split]
    exact List.mem_append_right _ List.mem_cons_self
  rcases exists_place_of_mem (mem_preorder_of_leave_mem member) with ⟨context, children, place⟩
  have steps : tree.visits =
      (visitsBefore context ++ .enter value :: visitsAll children) ++
        .leave value :: visitsAfter context := by
    rw [place, visits_fill, visits]
    simp only [List.append_assoc, List.cons_append, List.nil_append]
  have once : tree.visits.Nodup := (visits_perm tree).nodup_iff.mpr (nodup_pairsOf distinct)
  rw [steps, List.nodup_append, List.nodup_cons] at once
  have notBefore : Visit.leave value ∉ visitsBefore context ++ .enter value :: visitsAll children :=
    fun earlier => once.2.2 _ earlier _ List.mem_cons_self rfl
  have halves := (List.append_cons_inj_of_notMem notBefore once.2.1.1).mp (steps.symm.trans split)
  exact ⟨context, children, place, halves.1.symm, halves.2.2.symm⟩

end Rose

end CallbackLint
