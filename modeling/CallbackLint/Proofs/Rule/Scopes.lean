import CallbackLint.Proofs.Rose.Traversal
import CallbackLint.Proofs.Rule.Sightings
import CallbackLint.Proofs.Syntax.Links

namespace CallbackLint

open Rose

/-!
# The frames during a traversal

A traversal pushes a frame at every function and pops one when it leaves it.  So
a subtree as a whole changes no frames, and the frames at a place are those of
the functions on the way from the root, on top of whatever frames there were
before the traversal.
-/

/-- `function` is the innermost function around a node. -/
structure Store.NearestFunction (store : Store) (function name : Nat) : Prop where
  above : store.Above function name
  isFunction : store.kind? function = some .function
  nearest : ∀ other, store.Above other name → store.kind? other = some .function →
    other = function ∨ store.Above other function

/-- The functions around a place, innermost first. -/
def Store.functionsAbove (store : Store) (context : Context Nat) : List Nat :=
  (valuesAbove context).filter fun name => store.kind? name == some .function

theorem Store.functionsAbove_cons (store : Store) (crumb : Crumb Nat) (context : Context Nat) :
    store.functionsAbove (crumb :: context) =
      if store.kind? crumb.value = some .function then
        crumb.value :: store.functionsAbove context
      else store.functionsAbove context := by
  simp only [functionsAbove, valuesAbove_cons, List.filter_cons, beq_iff_eq]

namespace Scopes

/-- The frame of a function at a given index of the stack. -/
def frameAt (index function : Nat) : Frame :=
  { function, depth := index, parent := if index = 0 then none else some (index - 1) }

def enterEach (base : Scopes) (functions : List Nat) : Scopes :=
  functions.foldr (fun function scopes => scopes.enter function) base

@[simp] theorem leave_enter (scopes : Scopes) (function : Nat) :
    (scopes.enter function).leave = scopes := rfl

theorem height_enterEach (base : Scopes) (functions : List Nat) :
    (base.enterEach functions).height = base.height + functions.length := by
  induction functions with
  | nil => rfl
  | cons function functions inductionHypothesis =>
      change (base.enterEach functions).height + 1 = _
      rw [inductionHypothesis, List.length_cons, Nat.add_assoc]

/-- From the outside in, the frames are the old ones and then one a function,
each with the index that it has on the stack. -/
theorem reverse_frames_enterEach (base : Scopes) (functions : List Nat) :
    (base.enterEach functions).frames.reverse =
      base.frames.reverse ++
        functions.reverse.mapIdx fun index function => frameAt (base.height + index) function := by
  induction functions with
  | nil => exact (List.append_nil _).symm
  | cons function functions inductionHypothesis =>
      have pushed : (base.enterEach (function :: functions)).frames =
          (base.enterEach functions).frameFor function :: (base.enterEach functions).frames := rfl
      rw [pushed, List.reverse_cons, inductionHypothesis, List.reverse_cons, List.mapIdx_append,
        List.append_assoc, frameFor, height_enterEach, List.length_reverse, List.mapIdx_cons,
        List.mapIdx_nil, Nat.zero_add]
      rfl

theorem current?_enterEach (base : Scopes) (functions : List Nat) :
    (base.enterEach functions).current?.map Frame.function =
      functions.head?.or (base.current?.map Frame.function) := by
  cases functions with
  | nil => rfl
  | cons function functions => rfl

end Scopes

namespace Store.Holds

variable {store : Store} {context : Context Nat} {tree : Rose Nat}

/-- Of two nodes above a place, the one that is met later is above the other. -/
theorem pairwise_above (holds : store.Holds (fill context tree)) :
    (valuesAbove context).Pairwise fun lower upper => store.Above upper lower := by
  induction context generalizing tree with
  | nil => exact List.Pairwise.nil
  | cons crumb context inductionHypothesis =>
      have higher : store.Holds (fill context (crumb.fill tree)) := holds
      exact List.Pairwise.cons (fun upper member => higher.above_iff.mpr member)
        (inductionHypothesis higher)

theorem mem_functionsAbove (holds : store.Holds (fill context tree)) (function : Nat) :
    function ∈ store.functionsAbove context ↔
      store.Above function tree.value ∧ store.kind? function = some .function := by
  rw [functionsAbove, List.mem_filter, ← holds.above_iff, beq_iff_eq]

/-- Parent links do not lead back to where they started. -/
theorem not_above_self (holds : store.Holds tree) {name : Nat} (member : name ∈ tree.preorder) :
    ¬ store.Above name name := by
  intro above
  rcases exists_place_of_mem member with ⟨context, below, place⟩
  rw [place] at holds
  exact holds.not_mem_valuesAbove List.mem_cons_self (holds.above_iff.mp above)

/-- The innermost function around a place is the first one on the way up. -/
theorem nearestFunction_iff (holds : store.Holds (fill context tree)) (function : Nat) :
    store.NearestFunction function tree.value ↔
      (store.functionsAbove context).head? = some function := by
  have ordered : (store.functionsAbove context).Pairwise fun lower upper =>
    store.Above upper lower := holds.pairwise_above.filter _
  have member := holds.mem_functionsAbove
  generalize store.functionsAbove context = functions at ordered member
  constructor
  · intro nearest
    have listed := (member function).mpr ⟨nearest.above, nearest.isFunction⟩
    cases functions with
    | nil => cases listed
    | cons first rest =>
        have here := (member first).mp List.mem_cons_self
        rcases List.mem_cons.mp listed with same | later
        · rw [List.head?_cons, same]
        · rcases nearest.nearest first here.1 here.2 with same | inside
          · rw [List.head?_cons, same]
          · -- Then `function` is above `first`, and by its nearness below it.
            have outside := (List.pairwise_cons.mp ordered).1 function later
            have inTree : first ∈ (fill context tree).preorder := by
              rw [preorder_fill, List.append_assoc]
              exact List.mem_append_left _ (valuesAbove_subset_preorderBefore context
                (holds.above_iff.mp here.1))
            exact False.elim (holds.not_above_self inTree (inside.trans outside))
  · intro first
    cases functions with
    | nil => cases first
    | cons head rest =>
        rw [List.head?_cons, Option.some.injEq] at first
        rw [first] at ordered member
        have here := (member function).mp List.mem_cons_self
        refine ⟨here.1, here.2, ?_⟩
        intro other above isFunction
        rcases List.mem_cons.mp ((member other).mpr ⟨above, isFunction⟩) with same | later
        · exact Or.inl same
        · exact Or.inr ((List.pairwise_cons.mp ordered).1 other later)

end Store.Holds

namespace Inspection

variable (store : Store)

theorem scopes_enter (inspection : Inspection) (name : Nat) :
    (step store inspection (.enter name)).scopes =
      if store.kind? name = some .function then inspection.scopes.enter name
      else inspection.scopes := by
  rw [step, enter_eq]
  rfl

theorem scopes_leave (inspection : Inspection) (name : Nat) :
    (step store inspection (.leave name)).scopes =
      if store.kind? name = some .function then inspection.scopes.leave
      else inspection.scopes := by
  rw [step, leave_eq]

mutual

/-- The traversal of a whole subtree changes no frames. -/
theorem scopes_visits (inspection : Inspection) : (tree : Rose Nat) →
    (tree.visits.foldl (step store) inspection).scopes = inspection.scopes
  | .node name below => by
      rw [visits, List.foldl_cons, List.foldl_append, List.foldl_cons, List.foldl_nil,
        scopes_leave, scopes_visitsAll _ below, scopes_enter]
      by_cases isFunction : store.kind? name = some .function
      · rw [if_pos isFunction, if_pos isFunction, Scopes.leave_enter]
      · rw [if_neg isFunction, if_neg isFunction]

theorem scopes_visitsAll (inspection : Inspection) : (trees : List (Rose Nat)) →
    ((visitsAll trees).foldl (step store) inspection).scopes = inspection.scopes
  | [] => rfl
  | tree :: rest => by
      rw [visitsAll, List.foldl_append, scopes_visitsAll _ rest, scopes_visits _ tree]

end

/-- The frames when a traversal comes to a place. -/
theorem scopes_visitsBefore (inspection : Inspection) (context : Context Nat) :
    ((visitsBefore context).foldl (step store) inspection).scopes =
      inspection.scopes.enterEach (store.functionsAbove context) := by
  induction context with
  | nil => rfl
  | cons crumb context inductionHypothesis =>
      rw [visitsBefore, List.foldl_append, List.foldl_cons, scopes_visitsAll, scopes_enter,
        inductionHypothesis, Store.functionsAbove_cons]
      by_cases isFunction : store.kind? crumb.value = some .function
      · rw [if_pos isFunction, if_pos isFunction]
        rfl
      · rw [if_neg isFunction, if_neg isFunction]

/-- A run over a tree takes the inspection through the steps of its walk. -/
theorem run_eq_foldl {store : Store} {shape : Rose Nat} (holds : store.Holds shape)
    (inspection : Inspection) :
    inspection.run store shape.value = shape.walk.foldl (step store) inspection := by
  rw [run, holds.outline_eq, guide_eq_foldl, walk_eq_visits]

/-- What the frames are at every moment of a run, from any frames that it starts with.  A moment is
a place in the walk, and what is said of it does not depend on what the run reports. -/
structure FramesFollow (store : Store) (shape : Rose Nat) (inspection : Inspection) : Prop where
  /-- The moments of a run are those of its walk. -/
  moments : inspection.run store shape.value = shape.walk.foldl (step store) inspection
  /-- When a node is entered, the frames are the old ones and then one for each
  function above the node, from the outside in. -/
  entered : ∀ before name after, shape.walk = before ++ .enter name :: after →
    ∃ functions : List Nat,
      functions.Pairwise store.Above ∧
      (∀ function, function ∈ functions ↔
        store.Above function name ∧ store.kind? function = some .function) ∧
      (before.foldl (step store) inspection).scopes.frames.reverse =
        inspection.scopes.frames.reverse ++ functions.mapIdx fun index function =>
          Scopes.frameAt (inspection.scopes.height + index) function
  /-- The innermost frame is then that of the innermost function. -/
  inside : ∀ before name after, shape.walk = before ++ .enter name :: after →
    ∀ function, store.NearestFunction function name →
      (before.foldl (step store) inspection).scopes.current?.map Frame.function = some function
  /-- Outside every function it is the one that the run started with, if any. -/
  outside : ∀ before name after, shape.walk = before ++ .enter name :: after →
    (∀ function, store.Above function name → store.kind? function ≠ some .function) →
      (before.foldl (step store) inspection).scopes.current? = inspection.scopes.current?
  /-- After a node has been left, the frames are what they were before it was
  entered. -/
  left : ∀ before name inside after,
    shape.walk = before ++ .enter name :: (inside ++ .leave name :: after) →
    ((before ++ .enter name :: (inside ++ [.leave name])).foldl (step store) inspection).scopes =
      (before.foldl (step store) inspection).scopes
  /-- After the run they are what they were before it. -/
  ended : (inspection.run store shape.value).scopes = inspection.scopes

/-- The frames at a moment at which a node is entered are those of its place. -/
theorem exists_place_of_moment {store : Store} {shape : Rose Nat} (holds : store.Holds shape)
    (inspection : Inspection) {before after : List (Visit Nat)} {name : Nat}
    (moment : shape.walk = before ++ .enter name :: after) :
    ∃ context below, store.Holds (fill context (.node name below)) ∧
      (before.foldl (step store) inspection).scopes =
        inspection.scopes.enterEach (store.functionsAbove context) ∧
      (fill context (.node name below)).preorder.Nodup ∧
      after = visitsAll below ++ .leave name :: visitsAfter context := by
  rw [walk_eq_visits] at moment
  rcases exists_place_of_enter moment with ⟨context, below, place, beforeEq, afterEq⟩
  refine ⟨context, below, place ▸ holds, ?_, place ▸ holds.distinct, afterEq⟩
  rw [beforeEq, scopes_visitsBefore]

/-- The frames follow the traversal of any tree, from any state. -/
theorem frames_follow_run (store : Store) (shape : Rose Nat) (holds : store.Holds shape)
    (inspection : Inspection) : FramesFollow store shape inspection where
  moments := run_eq_foldl holds inspection
  entered := by
    intro before name after moment
    rcases exists_place_of_moment holds inspection moment with ⟨context, below, here, frames, _⟩
    refine ⟨(store.functionsAbove context).reverse, ?_, ?_, ?_⟩
    · exact List.pairwise_reverse.mpr (here.pairwise_above.filter _)
    · intro function
      rw [List.mem_reverse]
      exact here.mem_functionsAbove function
    · rw [frames]
      exact Scopes.reverse_frames_enterEach _ _
  inside := by
    intro before name after moment function nearest
    rcases exists_place_of_moment holds inspection moment with ⟨context, below, here, frames, _⟩
    rw [frames, Scopes.current?_enterEach, (here.nearestFunction_iff function).mp nearest]
    rfl
  outside := by
    intro before name after moment outside
    rcases exists_place_of_moment holds inspection moment with ⟨context, below, here, frames, _⟩
    have none : store.functionsAbove context = [] := by
      apply List.eq_nil_iff_forall_not_mem.mpr
      intro function member
      have found := (here.mem_functionsAbove function).mp member
      exact outside function found.1 found.2
    rw [frames, none]
    rfl
  left := by
    intro before name inside after moment
    rcases exists_place_of_moment holds inspection moment with
      ⟨context, below, _, _, distinct, rest⟩
    have whole : Visit.enter name :: (inside ++ [.leave name]) = (node name below).visits := by
      rw [(steps_of_leave distinct rest).1, visits]
    rw [whole, List.foldl_append, scopes_visits]
  ended := by
    rw [run_eq_foldl holds, walk_eq_visits, scopes_visits]

/-- A call after a function inside a function, and another one after both. -/
def nestedFunctions : Store where
  nodes := #[
    { kind := .program, position := ⟨1, 1⟩, children := [1, 5] },
    { kind := .function, position := ⟨1, 1⟩, children := [2], parent := some 0, body := some 2 },
    { kind := .block, position := ⟨1, 3⟩, children := [3, 4], parent := some 1 },
    { kind := .function, position := ⟨2, 1⟩, parent := some 2 },
    { kind := .call, position := ⟨3, 1⟩, callee := some "callback", parent := some 2 },
    { kind := .call, position := ⟨4, 1⟩, callee := some "callback", parent := some 0 }]

def nestedNames : Rose Nat :=
  node 0 [node 1 [node 2 [node 3 [], node 4 []]], node 5 []]

theorem frames_follow_nestedFunctions :
    nestedFunctions.Holds nestedNames ∧
      FramesFollow nestedFunctions nestedNames
        { names := ["callback"], scopes := ({} : Scopes).enter 9 } :=
  ⟨by decide, frames_follow_run nestedFunctions nestedNames (by decide) _⟩

end Inspection

end CallbackLint
