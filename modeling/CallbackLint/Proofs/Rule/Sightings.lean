import CallbackLint.Rule.Inspection
import Mathlib.Tactic.SplitIfs

namespace CallbackLint

/-!
# What one step of an inspection does

Entering a node can do two things: push a frame, if the node is a function, or
sight a call.  What is sighted depends on the store and on the innermost frame,
but not on the names that the inspection looks for; these only decide which
sightings are noted and reported.  `Inspection.enter_eq` and
`Inspection.leave_eq` say all that a step can do, and later proofs open neither
operation again.
-/

/-- The placements are tried in order, and a call is reported when none applies. -/
theorem Placement.verdict_of_tests (returns body next guarded tail : Prop) [Decidable returns]
    [Decidable body] [Decidable next] [Decidable guarded] [Decidable tail] :
    (if returns then Placement.returnOperand
      else if body then .implicitReturn
      else if next then .followedByReturn
      else if guarded then .guarded
      else if tail then .functionTail
      else .unguarded).verdict = .violating ↔
        ¬ (returns ∨ body ∨ next ∨ guarded ∨ tail) := by
  split_ifs with isReturn inBody isNext isGuarded isTail
  · exact iff_of_false (by decide) (not_not_intro (Or.inl isReturn))
  · exact iff_of_false (by decide) (not_not_intro (Or.inr (Or.inl inBody)))
  · exact iff_of_false (by decide) (not_not_intro (Or.inr (Or.inr (Or.inl isNext))))
  · exact iff_of_false (by decide) (not_not_intro (Or.inr (Or.inr (Or.inr (Or.inl isGuarded)))))
  · exact iff_of_false (by decide) (not_not_intro (Or.inr (Or.inr (Or.inr (Or.inr isTail)))))
  · exact iff_of_true rfl (not_or.mpr ⟨isReturn, not_or.mpr ⟨inBody, not_or.mpr ⟨isNext,
      not_or.mpr ⟨isGuarded, isTail⟩⟩⟩⟩)

/-- A call of an identifier, with the place that it has. -/
structure Sighting where
  callee : String
  position : Position
  placement : Placement
deriving DecidableEq, Repr

namespace Sighting

def report? (names : List String) (path : Option String) (sighting : Sighting) :
    Option Diagnostic :=
  if names.contains sighting.callee ∧ sighting.placement.verdict = .violating then
    some (.missingReturn path sighting.position)
  else none

/-- The note about a sighting, if it is one of a name that is looked for. -/
def note? (names : List String) (sighting : Sighting) : Option Note :=
  if names.contains sighting.callee then
    some (.classified sighting.callee sighting.position sighting.placement)
  else none

/-- A sighting is reported if it is one of the names and its place is not accepted. -/
theorem report?_eq_none_iff {names : List String} {path : Option String} {sighting : Sighting} :
    sighting.report? names path = none ↔
      ¬(sighting.callee ∈ names ∧ sighting.placement.verdict = .violating) := by
  rw [← List.contains_iff_mem, report?]
  by_cases reported : names.contains sighting.callee ∧ sighting.placement.verdict = .violating
  · rw [if_pos reported]
    exact iff_of_false (Option.some_ne_none _) (not_not_intro reported)
  · rw [if_neg reported]
    exact iff_of_true rfl reported

/-- At most one sighting leads to at most one diagnostic or note. -/
theorem filterMap_toList {β : Type} (output : Sighting → Option β) (sighting? : Option Sighting) :
    sighting?.toList.filterMap output = (sighting?.bind output).toList := by
  cases sighting? with
  | none => rfl
  | some sighting =>
      rw [Option.toList_some, List.filterMap_cons, Option.bind_some]
      cases output sighting <;> rfl

open Classical in
/-- A node leads to a diagnostic exactly if it is a call of one of the names and
nothing accepts its place. -/
theorem bind_report? (names : List String) (path : Option String) (kind : Kind)
    (callee? : Option String) (position : Position) (placement : Placement) :
    (if kind = .call then callee?.map fun callee => ({ callee, position, placement } : Sighting)
      else none).bind (report? names path) =
        if (kind = .call ∧ ∃ callee, callee? = some callee ∧ callee ∈ names) ∧
            placement.verdict = .violating then
          some (.missingReturn path position)
        else none := by
  by_cases isCall : kind = .call
  · rw [if_pos isCall]
    cases callee? with
    | none =>
        rw [if_neg]
        · rfl
        · rintro ⟨⟨_, callee, impossible, _⟩, _⟩
          cases impossible
    | some callee =>
        have listed : (kind = .call ∧ ∃ other, some callee = some other ∧ other ∈ names) ↔
            names.contains callee = true := by
          rw [List.contains_iff_mem]
          constructor
          · rintro ⟨_, other, same, member⟩
            rw [Option.some.injEq] at same
            exact same ▸ member
          · exact fun member => ⟨isCall, callee, rfl, member⟩
        rw [Option.map_some, Option.bind_some, report?]
        simp only [listed]
  · rw [if_neg isCall, if_neg fun reported => isCall reported.1.1]
    rfl

end Sighting

/-- The call that a node is, if it is one of an identifier, seen from the frame
of the function around it. -/
def Store.sighting? (store : Store) (frame? : Option Frame) (name : Nat) : Option Sighting :=
  (store.node? name).bind fun node =>
    if node.kind = .call then
      node.callee.map fun callee =>
        { callee, position := node.position, placement := store.placementOf frame? name }
    else none

namespace Inspection

variable (store : Store) (inspection : Inspection) (name : Nat)

/-- The inspection after it has come past some calls. -/
def record (sightings : List Sighting) : Inspection :=
  { inspection with
    diagnostics := inspection.diagnostics ++
      sightings.filterMap (Sighting.report? inspection.names inspection.path)
    notes := inspection.notes ++ sightings.filterMap (Sighting.note? inspection.names) }

@[simp] theorem record_nil : inspection.record [] = inspection := by
  simp only [record, List.filterMap_nil, List.append_nil]

theorem record_append (first second : List Sighting) :
    inspection.record (first ++ second) = (inspection.record first).record second := by
  simp only [record, List.filterMap_append, List.append_assoc]

/-- The frames after a node has been entered. -/
def scopesAfterEnter : Scopes :=
  if store.kind? name = some .function then inspection.scopes.enter name
  else inspection.scopes

/-- A call of an identifier is recorded, whether or not it is looked for. -/
theorem matched_eq (node : Node) (callee : String) :
    (if matchesCallee inspection.names (some callee) then
        inspectCall store inspection name node callee
      else inspection) =
      inspection.record
        [{ callee, position := node.position
           placement := store.placementOf inspection.scopes.current? name }] := by
  cases listed : inspection.names.contains callee with
  | false =>
      simp only [matchesCallee, listed, Bool.false_eq_true, if_false, record,
        Sighting.report?, Sighting.note?, false_and, List.filterMap_cons, List.filterMap_nil,
        List.append_nil]
  | true =>
      rw [matchesCallee, listed, if_pos rfl, inspectCall]
      cases verdict : (store.placementOf inspection.scopes.current? name).verdict <;>
        simp only [record, Sighting.report?, Sighting.note?, listed, verdict, reduceCtorEq,
          and_true, and_false, if_true, if_false, List.filterMap_cons, List.filterMap_nil,
          List.append_nil]

/-- To enter a node is to push a frame for a function and to record a call. -/
theorem enter_eq :
    inspection.enter store name =
      { inspection.record (store.sighting? inspection.scopes.current? name).toList with
        scopes := scopesAfterEnter store inspection name } := by
  unfold enter
  cases found : store.node? name with
  | none =>
      have noFunction : store.kind? name ≠ some .function := by
        rw [Store.kind?, found]
        intro impossible
        cases impossible
      rw [Store.sighting?, found, scopesAfterEnter, if_neg noFunction]
      exact (inspection.record_nil).symm
  | some node =>
      have kindEq : store.kind? name = some node.kind := by rw [Store.kind?, found]; rfl
      rw [Store.sighting?, found, scopesAfterEnter, kindEq, Option.bind_some]
      rcases node with ⟨kind, position, callee, children, parent, body⟩
      cases kind
      case function => simp only [if_true, reduceCtorEq, if_false, Option.toList_none, record_nil]
      case call =>
        simp only [if_true, Option.some.injEq, reduceCtorEq, if_false]
        cases callee with
        | none => rw [Option.map_none, Option.toList_none, record_nil]
        | some callee => exact matched_eq store inspection name _ callee
      all_goals
        simp only [Option.some.injEq, reduceCtorEq, if_false, Option.toList_none, record_nil]

/-- To leave a node is to pop a frame for a function. -/
theorem leave_eq :
    inspection.leave store name =
      { inspection with
        scopes := if store.kind? name = some .function then inspection.scopes.leave
          else inspection.scopes } := by
  unfold leave
  cases kindEq : store.kind? name with
  | none => rfl
  | some kind => cases kind <;> rfl

end Inspection

end CallbackLint
