import CallbackLint.Proofs.Rose.Context
import Mathlib.Data.List.Basic

namespace CallbackLint

/-!
# The traversal with an agenda is the traversal by recursion

An agenda owes a list of steps: those of the trees that are still to explore and
the leave steps of the nodes around them.  Working it off shows a visitor just
these steps, so that the state after a traversal is a fold over `Rose.visits`.

The steps of a traversal that lie before a subtree depend only on its context,
and each enter step of a traversal belongs to one place.  With both, a statement
about a moment of a traversal is one about a place.
-/

def Visit.entered? {α : Type} : Visit α → Option α
  | .enter value => some value
  | .leave _ => none

namespace Rose

variable {α σ : Type}

/-! ## What an agenda owes -/

def Duty.steps : Duty α → List (Visit α)
  | explore tree => tree.visits
  | depart value => [.leave value]

/-- The steps that an agenda still owes. -/
def owed (agenda : List (Duty α)) : List (Visit α) := agenda.flatMap Duty.steps

theorem owed_exploreAll (trees : List (Rose α)) : owed (exploreAll trees) = visitsAll trees := by
  induction trees with
  | nil => rfl
  | cons tree rest inductionHypothesis =>
      rw [visitsAll, ← inductionHypothesis]
      rfl

/-- To enter a node is to owe the steps below it and then its leave step. -/
theorem owed_explore (value : α) (children : List (Rose α)) (rest : List (Duty α)) :
    owed (.explore (.node value children) :: rest) =
      .enter value :: owed (exploreAll children ++ .depart value :: rest) := by
  have below := owed_exploreAll children
  simp only [owed] at below ⊢
  rw [List.flatMap_cons, List.flatMap_append, List.flatMap_cons, below]
  simp only [Duty.steps, visits, List.cons_append, List.append_assoc, List.nil_append]

theorem drive_eq_foldl (visitor : σ → Visit α → σ) (state : σ) (agenda : List (Duty α)) :
    drive visitor state agenda = (owed agenda).foldl visitor state := by
  fun_induction drive visitor state agenda with
  | case1 state => rfl
  | case2 state value rest inductionHypothesis => exact inductionHypothesis
  | case3 state value children rest inductionHypothesis =>
      rw [inductionHypothesis, owed_explore, List.foldl_cons]

theorem guide_eq_foldl (visitor : σ → Visit α → σ) (state : σ) (tree : Rose α) :
    guide visitor state tree = tree.visits.foldl visitor state := by
  rw [guide, drive_eq_foldl, owed, List.flatMap_singleton]
  rfl

/-- The steps that the agenda produces are those of the recursion. -/
theorem walk_eq_visits (tree : Rose α) : tree.walk = tree.visits := by
  rw [walk, guide_eq_foldl, List.foldl_push_eq_append', Array.toList_append,
    Array.toList_empty, List.nil_append]

mutual

/-- A traversal enters the nodes of a tree in preorder. -/
theorem filterMap_entered?_visits : (tree : Rose α) →
    tree.visits.filterMap Visit.entered? = tree.preorder
  | .node value children => by
      simp [visits, preorder, Visit.entered?, filterMap_entered?_visitsAll children]

theorem filterMap_entered?_visitsAll : (trees : List (Rose α)) →
    (visitsAll trees).filterMap Visit.entered? = preorderAll trees
  | [] => rfl
  | tree :: rest => by
      simp [visitsAll, preorderAll, filterMap_entered?_visits tree,
        filterMap_entered?_visitsAll rest]

end

/-! ## The steps around a place -/

/-- The steps of a traversal before it comes to a place. -/
def visitsBefore : Context α → List (Visit α)
  | [] => []
  | crumb :: context =>
    visitsBefore context ++ .enter crumb.value :: visitsAll crumb.before

/-- The steps of a traversal after it has left a place. -/
def visitsAfter : Context α → List (Visit α)
  | [] => []
  | crumb :: context => visitsAll crumb.after ++ .leave crumb.value :: visitsAfter context

theorem visitsBefore_append (inner outer : Context α) :
    visitsBefore (inner ++ outer) = visitsBefore outer ++ visitsBefore inner := by
  induction inner with
  | nil => simp only [List.nil_append, visitsBefore, List.append_nil]
  | cons crumb inner inductionHypothesis =>
      simp only [List.cons_append, visitsBefore, inductionHypothesis, List.append_assoc]

theorem visitsAfter_append (inner outer : Context α) :
    visitsAfter (inner ++ outer) = visitsAfter inner ++ visitsAfter outer := by
  induction inner with
  | nil => rfl
  | cons crumb inner inductionHypothesis =>
      simp only [List.cons_append, visitsAfter, inductionHypothesis, List.append_assoc]

mutual

/-- A traversal of a tree leaves no node outside it. -/
theorem mem_preorder_of_leave_mem {value : α} : {tree : Rose α} →
    Visit.leave value ∈ tree.visits → value ∈ tree.preorder
  | .node root children, member => by
      rw [visits] at member
      rcases List.mem_cons.mp member with impossible | later
      · cases impossible
      · rcases List.mem_append.mp later with below | last
        · exact List.mem_cons_of_mem _ (mem_preorderAll_of_leave_mem below)
        · rw [List.mem_singleton, Visit.leave.injEq] at last
          exact last ▸ List.mem_cons_self

theorem mem_preorderAll_of_leave_mem {value : α} : {trees : List (Rose α)} →
    Visit.leave value ∈ visitsAll trees → value ∈ preorderAll trees
  | [], impossible => False.elim (List.not_mem_nil impossible)
  | tree :: rest, member => by
      rw [preorderAll]
      rcases List.mem_append.mp member with inTree | inRest
      · exact List.mem_append_left _ (mem_preorder_of_leave_mem inTree)
      · exact List.mem_append_right _ (mem_preorderAll_of_leave_mem inRest)

end

/-- The traversal of some trees takes every step of each of them. -/
theorem mem_visitsAll {step : Visit α} {tree : Rose α} {trees : List (Rose α)}
    (listed : tree ∈ trees) (member : step ∈ tree.visits) : step ∈ visitsAll trees := by
  induction trees with
  | nil => cases listed
  | cons first rest inductionHypothesis =>
      rw [visitsAll]
      rcases List.mem_cons.mp listed with same | later
      · exact List.mem_append_left _ (same ▸ member)
      · exact List.mem_append_right _ (inductionHypothesis later)

/-- A traversal enters every node of the tree. -/
theorem enter_mem_visits {tree : Rose α} {value : α} (member : value ∈ tree.preorder) :
    Visit.enter value ∈ tree.visits := by
  induction tree with
  | node root children inductionHypothesis =>
      rw [visits]
      rcases List.mem_cons.mp member with same | later
      · exact same ▸ List.mem_cons_self
      · rcases exists_mem_of_mem_preorderAll later with ⟨child, listed, inside⟩
        have step := mem_visitsAll listed (inductionHypothesis child listed inside)
        exact List.mem_cons_of_mem _ (List.mem_append_left _ step)

theorem mem_of_leave_mem_visitsAfter {value : α} {context : Context α}
    (member : Visit.leave value ∈ visitsAfter context) :
    value ∈ valuesAbove context ∨ value ∈ preorderAfter context := by
  induction context with
  | nil => cases member
  | cons crumb context inductionHypothesis =>
      rw [valuesAbove_cons, preorderAfter, List.mem_cons, List.mem_append]
      rcases List.mem_append.mp member with sibling | later
      · exact Or.inr (Or.inl (mem_preorderAll_of_leave_mem sibling))
      · rcases List.mem_cons.mp later with here | further
        · rw [Visit.leave.injEq] at here
          exact Or.inl (Or.inl here)
        · rcases inductionHypothesis further with above | after
          · exact Or.inl (Or.inr above)
          · exact Or.inr (Or.inr after)

/-- Where no value occurs twice, the leave step of a place is found at its only
occurrence among the steps that follow the enter step. -/
theorem steps_of_leave {context : Context α} {value : α} {children : List (Rose α)}
    {inside after : List (Visit α)}
    (distinct : (fill context (.node value children)).preorder.Nodup)
    (split : inside ++ .leave value :: after =
      visitsAll children ++ .leave value :: visitsAfter context) :
    inside = visitsAll children ∧ after = visitsAfter context := by
  rw [preorder_fill, List.nodup_append, List.nodup_append, preorder, List.nodup_cons] at distinct
  have notBelow : Visit.leave value ∉ visitsAll children := fun member =>
    distinct.1.2.1.1 (mem_preorderAll_of_leave_mem member)
  have notAfter : Visit.leave value ∉ visitsAfter context := by
    intro member
    rcases mem_of_leave_mem_visitsAfter member with above | after
    · exact distinct.1.2.2 value (valuesAbove_subset_preorderBefore context above) value
        List.mem_cons_self rfl
    · exact distinct.2.2 value (List.mem_append_right _ List.mem_cons_self) value after rfl
  have halves := (List.append_cons_inj_of_notMem notBelow notAfter).mp split.symm
  exact ⟨halves.1.symm, halves.2.2.symm⟩

/-- An enter step within some trees lies in one of them. -/
theorem enter_split_visitsAll {trees : List (Rose α)} {value : α}
    {before after : List (Visit α)} (split : visitsAll trees = before ++ .enter value :: after) :
    ∃ left tree right inside beyond,
      trees = left ++ tree :: right ∧ tree.visits = inside ++ .enter value :: beyond ∧
        before = visitsAll left ++ inside ∧ after = beyond ++ visitsAll right := by
  induction trees generalizing before with
  | nil => cases before <;> cases split
  | cons tree rest inductionHypothesis =>
      rw [visitsAll] at split
      rcases List.append_eq_append_iff.mp split with
        ⟨middle, beforeEq, restEq⟩ | ⟨middle, treeEq, afterEq⟩
      · rcases inductionHypothesis restEq with
          ⟨left, found, right, inside, beyond, treesEq, visitsEq, middleEq, afterEq⟩
        refine ⟨tree :: left, found, right, inside, beyond, ?_, visitsEq, ?_, afterEq⟩
        · rw [treesEq, List.cons_append]
        · rw [beforeEq, middleEq, visitsAll, List.append_assoc]
      · cases middle with
        | nil =>
            -- The step is the first of the next trees.
            rw [List.nil_append] at afterEq
            rcases @inductionHypothesis [] afterEq.symm with
              ⟨left, found, right, inside, beyond, treesEq, visitsEq, middleEq, laterEq⟩
            refine ⟨tree :: left, found, right, inside, beyond, ?_, visitsEq, ?_, laterEq⟩
            · rw [treesEq, List.cons_append]
            · rw [visitsAll, List.append_assoc, ← middleEq, treeEq, List.append_nil,
                List.append_nil]
        | cons step middle =>
            rw [List.cons_append, List.cons.injEq] at afterEq
            refine ⟨[], tree, rest, before, middle, rfl, ?_, rfl, afterEq.2⟩
            rw [treeEq, afterEq.1]

/-- Each enter step of a traversal belongs to a place, and the steps around it
are those that the place determines. -/
theorem exists_place_of_enter {tree : Rose α} {value : α} {before after : List (Visit α)}
    (split : tree.visits = before ++ .enter value :: after) :
    ∃ context children, tree = fill context (.node value children) ∧
      before = visitsBefore context ∧
      after = visitsAll children ++ .leave value :: visitsAfter context := by
  induction tree generalizing before after with
  | node root children inductionHypothesis =>
      rw [visits] at split
      cases before with
      | nil =>
          rw [List.nil_append, List.cons.injEq, Visit.enter.injEq] at split
          refine ⟨[], children, ?_, rfl, ?_⟩
          · rw [split.1]
            rfl
          · rw [← split.2, split.1]
            rfl
      | cons first before =>
          rw [List.cons_append, List.cons.injEq] at split
          have below : ∃ rest, after = rest ++ [.leave root] ∧
              visitsAll children = before ++ .enter value :: rest := by
            -- The last step of the node is no enter step.
            rcases List.append_eq_append_iff.mp split.2 with
              ⟨middle, _, impossible⟩ | ⟨middle, childrenEq, stepsEq⟩
            · cases middle with
              | nil => cases impossible
              | cons step middle => cases middle <;> cases impossible
            · cases middle with
              | nil => cases stepsEq
              | cons step middle =>
                  rw [List.cons_append, List.cons.injEq] at stepsEq
                  exact ⟨middle, stepsEq.2, by rw [childrenEq, stepsEq.1]⟩
          rcases below with ⟨rest, afterEq, childrenEq⟩
          rcases enter_split_visitsAll childrenEq with
            ⟨left, child, right, inside, beyond, treesEq, visitsEq, beforeEq, restEq⟩
          rcases inductionHypothesis child (treesEq ▸ List.mem_append_right _ List.mem_cons_self)
              visitsEq with ⟨context, found, childEq, insideEq, beyondEq⟩
          let crumb : Crumb α := { value := root, before := left, after := right }
          refine ⟨context ++ [crumb], found, ?_, ?_, ?_⟩
          · rw [fill_append, ← childEq, treesEq]
            rfl
          · rw [visitsBefore_append, ← insideEq, beforeEq, ← split.1]
            rfl
          · rw [visitsAfter_append, afterEq, restEq, beyondEq]
            simp only [visitsAfter, crumb, List.append_assoc, List.cons_append]

/-! ## Edges -/

mutual

/-- The pairs of a value and one right below it, in the order in which a traversal
leaves the upper ones. -/
def edges : Rose α → List (α × α)
  | .node value children =>
    edgesAll children ++ children.map fun child => (value, child.value)

def edgesAll : List (Rose α) → List (α × α)
  | [] => []
  | tree :: rest => tree.edges ++ edgesAll rest

end

mutual

/-- Every value but that of the root is the lower end of one edge. -/
theorem map_snd_edges_perm : (tree : Rose α) →
    (tree.value :: tree.edges.map Prod.snd).Perm tree.preorder
  | .node value children => by
      rw [edges, preorder, value_node, List.map_append, List.map_map]
      exact List.Perm.cons value (map_snd_edgesAll_perm children)

theorem map_snd_edgesAll_perm : (trees : List (Rose α)) →
    ((edgesAll trees).map Prod.snd ++ trees.map Rose.value).Perm (preorderAll trees)
  | [] => List.Perm.refl _
  | tree :: rest => by
      rw [edgesAll, preorderAll, List.map_append, List.map_cons, List.append_assoc]
      -- The value of the first tree moves in front of the edges below it.
      apply (List.Perm.append_left _ List.perm_middle).trans
      apply List.perm_middle.trans
      exact List.Perm.append (map_snd_edges_perm tree) (map_snd_edgesAll_perm rest)

end

theorem edges_subset_edgesAll {tree : Rose α} {trees : List (Rose α)} (member : tree ∈ trees) :
    tree.edges ⊆ edgesAll trees := by
  induction trees with
  | nil => cases member
  | cons first rest inductionHypothesis =>
      rw [edgesAll]
      rcases List.mem_cons.mp member with same | later
      · rw [same]
        exact List.subset_append_left _ _
      · exact List.Subset.trans (inductionHypothesis later) (List.subset_append_right _ _)

theorem edges_subset_fill (context : Context α) (tree : Rose α) :
    tree.edges ⊆ (fill context tree).edges := by
  induction context generalizing tree with
  | nil => exact List.Subset.refl _
  | cons crumb context inductionHypothesis =>
      have below : tree.edges ⊆ (crumb.fill tree).edges := by
        rw [Crumb.fill, edges]
        apply List.subset_append_of_subset_left
        exact edges_subset_edgesAll (List.mem_append_right _ List.mem_cons_self)
      exact List.Subset.trans below (inductionHypothesis (crumb.fill tree))

/-- A place below the root is the lower end of an edge. -/
theorem edge_mem_fill (crumb : Crumb α) (context : Context α) (tree : Rose α) :
    (crumb.value, tree.value) ∈ (fill (crumb :: context) tree).edges := by
  apply edges_subset_fill context (crumb.fill tree)
  rw [Crumb.fill, edges]
  apply List.mem_append_right
  exact List.mem_map_of_mem (List.mem_append_right _ List.mem_cons_self)

end Rose

end CallbackLint
