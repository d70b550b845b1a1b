import CallbackLint.Proofs.Rule.Scopes

namespace CallbackLint

open Rose

/-!
# What a run records

A run over a tree records, in preorder, every call of an identifier with the
placement that it has for the frames at its place.  Those frames are the ones
that the run starts with and one for each function above the call, so that what
is recorded for a call does not depend on what the run has met before.
-/

/-- The call that a node is, seen from the frames that a run has when it comes
there after it has started with `base`. -/
def Store.sightingAt (store : Store) (base : Scopes) (name : Nat) : Option Sighting :=
  store.sighting? (base.enterEach ((store.ancestors name).filter fun above =>
    store.kind? above == some .function)).current? name

namespace Inspection

variable {store : Store}

theorem sighting?_eq_sightingAt (base : Scopes) {context : Context Nat} {tree : Rose Nat}
    (holds : store.Holds (fill context tree)) :
    store.sighting? (base.enterEach (store.functionsAbove context)).current? tree.value =
      store.sightingAt base tree.value := by
  rw [Store.sightingAt, holds.ancestors_eq, Store.functionsAbove]

mutual

/-- The traversal of a subtree records its calls and changes nothing else. -/
theorem foldl_visits {base : Scopes} (context : Context Nat) : (tree : Rose Nat) →
    (inspection : Inspection) → store.Holds (fill context tree) →
    inspection.scopes = base.enterEach (store.functionsAbove context) →
    tree.visits.foldl (step store) inspection =
      inspection.record (tree.preorder.filterMap (store.sightingAt base))
  | .node name below, inspection, holds, scopes => by
      let inside := scopesAfterEnter store inspection name
      have entered : step store inspection (.enter name) =
          { inspection.record (store.sightingAt base name).toList with scopes := inside } := by
        rw [step, enter_eq, scopes]
        exact congrArg (fun sighting : Option Sighting =>
          { inspection.record sighting.toList with scopes := inside })
          (sighting?_eq_sightingAt base holds)
      have insideEq : inside = base.enterEach
          (if store.kind? name = some .function then name :: store.functionsAbove context
            else store.functionsAbove context) := by
        simp only [inside, scopesAfterEnter, scopes]
        split <;> rfl
      rw [visits, List.foldl_cons, List.foldl_append, entered,
        foldl_visitsAll context [] below _ holds insideEq, List.foldl_cons, List.foldl_nil,
        step, leave_eq]
      have left : (if store.kind? name = some .function then inside.leave else inside) =
          inspection.scopes := by
        simp only [inside, scopesAfterEnter]
        by_cases isFunction : store.kind? name = some .function
        · rw [if_pos isFunction, if_pos isFunction, Scopes.leave_enter]
        · rw [if_neg isFunction, if_neg isFunction]
      rw [filterMap_preorder, record_append]
      exact congrArg (fun scopes => { record (inspection.record _) _ with scopes }) left

theorem foldl_visitsAll {base : Scopes} (context : Context Nat) {name : Nat}
    (before : List (Rose Nat)) : (trees : List (Rose Nat)) → (inspection : Inspection) →
    store.Holds (fill context (.node name (before ++ trees))) →
    inspection.scopes = base.enterEach
      (if store.kind? name = some .function then name :: store.functionsAbove context
        else store.functionsAbove context) →
    (visitsAll trees).foldl (step store) inspection =
      inspection.record ((preorderAll trees).filterMap (store.sightingAt base))
  | [], inspection, _, _ => (record_nil inspection).symm
  | tree :: rest, inspection, holds, scopes => by
      have first := foldl_visits ({ value := name, before, after := rest } :: context)
        tree inspection holds (by rw [scopes, Store.functionsAbove_cons])
      rw [List.append_cons] at holds
      have later := foldl_visitsAll context (before ++ [tree]) rest
        (inspection.record (tree.preorder.filterMap (store.sightingAt base))) holds scopes
      rw [visitsAll, List.foldl_append, first, later, preorderAll, List.filterMap_append,
        record_append]

end

/-- A run over a tree records the calls of the tree and changes nothing else. -/
theorem run_eq {shape : Rose Nat} (holds : store.Holds shape) (inspection : Inspection) :
    inspection.run store shape.value =
      inspection.record (shape.preorder.filterMap (store.sightingAt inspection.scopes)) := by
  rw [run_eq_foldl holds, walk_eq_visits]
  exact foldl_visits [] shape inspection holds rfl

end Inspection

/-- A check reports and notes the calls of the tree, seen without outer frames. -/
theorem Store.check_eq {store : Store} {shape : Rose Nat} (holds : store.Holds shape)
    (names : List String) (path : Option String) :
    store.check names path shape.value =
      { diagnostics := (shape.preorder.filterMap (store.sightingAt {})).filterMap
          (Sighting.report? names path)
        notes := (shape.preorder.filterMap (store.sightingAt {})).filterMap
          (Sighting.note? names) } := by
  rw [check, Inspection.run_eq holds]
  rfl

end CallbackLint
