import CallbackLint.Proofs.Concrete.Ledger
import CallbackLint.Proofs.Rule.Recursion
import CallbackLint.Proofs.Syntax.Building

namespace CallbackLint

open Rose

/-!
# Lowering to linked nodes follows lowering to plain trees

Both kinds of lowering go through the same steps, with a table of names on one side
and a table of trees on the other.  At every moment the two tables are views of one
table of shapes, that is of trees with names: the store keeps all these shapes,
apart from each other.  Whatever identities the nodes have, a result is taken out
of the table at most once, so that no node ever gets two parents.
-/

namespace Lowering

namespace Results

variable {α β : Type}

/-! ## Two views of one table -/

def view (look : α → β) (results : Results α) : Results β :=
  results.map fun entry => (entry.1, look entry.2)

def viewLowered (look : α → β) (lowered : Lowered α) : Lowered β :=
  lowered.map fun child => (child.1, child.2.map look)

theorem get?_view (look : α → β) (results : Results α) (identity : Int) :
    (results.view look).get? identity = (results.get? identity).map look := by
  rw [get?, get?, view, List.find?_map, Option.map_map, Option.map_map]
  rfl

theorem drop_view (look : α → β) (results : Results α) (identity : Int) :
    (results.view look).drop identity = (results.drop identity).view look := by
  rw [drop, view, List.eraseP_map]
  rfl

theorem put_view (look : α → β) (results : Results α) (identity : Int) (result : α) :
    (results.view look).put identity (look result) = (results.put identity result).view look := by
  rw [put, view, List.filter_map]
  rfl

theorem takeAll_view (look : α → β) (results : Results α) (identities : List Int) :
    (results.view look).takeAll identities =
      (viewLowered look (results.takeAll identities).1, (results.takeAll identities).2.view look) := by
  induction identities generalizing results with
  | nil => rfl
  | cons identity rest inductionHypothesis =>
      rw [takeAll, get?_view, drop_view, inductionHypothesis]
      rfl

theorem present_view (look : α → β) (lowered : Lowered α) :
    present (viewLowered look lowered) = (present lowered).map look := by
  rw [present, present, viewLowered, List.filterMap_map, List.map_filterMap]
  rfl

/-! ## Nothing is taken twice -/

theorem eq_of_get?_eq_some {results : Results α} {identity : Int} {result : α}
    (found : results.get? identity = some result) :
    ∃ before after, results = before ++ (identity, result) :: after ∧
      ∀ entry ∈ before, entry.1 ≠ identity := by
  rcases Option.map_eq_some_iff.mp found with ⟨entry, first, same⟩
  rcases List.find?_eq_some_iff_append.mp first with ⟨here, before, after, split, absent⟩
  rw [beq_iff_eq] at here
  refine ⟨before, after, ?_, ?_⟩
  · rw [split, ← here, ← same]
  · intro other member equal
    have refused := absent other member
    rw [equal, beq_self_eq_true] at refused
    cases refused

theorem drop_of_get?_eq_none {results : Results α} {identity : Int}
    (missing : results.get? identity = none) : results.drop identity = results := by
  rw [get?, Option.map_eq_none_iff, List.find?_eq_none] at missing
  exact List.eraseP_of_forall_not missing

/-- What is taken out of a table and what stays there make up the table. -/
theorem present_takeAll_perm (results : Results α) (identities : List Int) :
    (present (results.takeAll identities).1 ++
      (results.takeAll identities).2.map Prod.snd).Perm (results.map Prod.snd) := by
  induction identities generalizing results with
  | nil => exact List.Perm.refl _
  | cons identity rest inductionHypothesis =>
      have later := inductionHypothesis (results.drop identity)
      rw [takeAll]
      cases found : results.get? identity with
      | none =>
          rw [drop_of_get?_eq_none found] at later ⊢
          exact later
      | some result =>
          rcases eq_of_get?_eq_some found with ⟨before, after, split, absent⟩
          rw [split, drop_of_split absent] at later
          rw [split, drop_of_split absent, List.map_append, List.map_cons]
          rw [List.map_append] at later
          exact (List.Perm.cons result later).trans List.perm_middle.symm

end Results

open Results

variable {store : Store} {others : List (Rose (Nat × Label))}

abbrev nameOf (shape : Rose (Nat × Label)) : Nat := shape.value.1

abbrev treeOf (shape : Rose (Nat × Label)) : Tree := shape.map Prod.snd

/-! ## Building one node -/

theorem map_nameOf (shapes : List (Rose (Nat × Label))) :
    shapes.map nameOf = (shapes.map Rose.value).map Prod.fst := by
  rw [List.map_map]
  rfl

/-- A place among some names is the same place if more names follow. -/
theorem bind_append_eq {found : Option Nat} {known : List Nat} (name : Nat)
    (inside : ∀ index, found = some index → index < known.length) :
    (found.bind fun index => (known ++ [name])[index]?) =
      found.bind fun index => known[index]? := by
  cases found with
  | none => rfl
  | some index => exact List.getElem?_append_left (inside index rfl)

/-- Following the place of a body leads to its name. -/
theorem lastOf_eq {identity : Int} {found : Option Nat} {known : List Nat}
    (lowered : Lowered (Rose (Nat × Label)))
    (inside : ∀ index, found = some index → index < known.length) :
    lastOf identity (found.bind fun index => known[index]?) (viewLowered nameOf lowered) =
      (placeOf identity known.length found (viewLowered treeOf lowered)).bind
        fun index => (known ++ (present lowered).map nameOf)[index]? := by
  induction lowered generalizing found known with
  | nil => simp [viewLowered, lastOf, placeOf, present]
  | cons child rest inductionHypothesis =>
      rcases child with ⟨other, result⟩
      have names : viewLowered nameOf ((other, result) :: rest) =
          (other, result.map nameOf) :: viewLowered nameOf rest := rfl
      have trees : viewLowered treeOf ((other, result) :: rest) =
          (other, result.map treeOf) :: viewLowered treeOf rest := rfl
      rw [names, trees]
      cases result with
      | none =>
          rw [lastOf, Option.map_none, Option.map_none, placeOf]
          by_cases same : other = identity
          · rw [if_pos same, if_pos same]
            exact @inductionHypothesis none known nofun
          · rw [if_neg same, if_neg same]
            exact inductionHypothesis inside
      | some shape =>
          have length : (known ++ [nameOf shape]).length = known.length + 1 :=
            List.length_append
          have appended : known ++ (present ((other, some shape) :: rest)).map nameOf =
              known ++ [nameOf shape] ++ (present rest).map nameOf := List.append_cons _ _ _
          rw [lastOf, Option.map_some, Option.map_some, placeOf, appended, ← length]
          by_cases same : other = identity
          · have here : some (nameOf shape) =
                (some known.length).bind fun index => (known ++ [nameOf shape])[index]? := by
              rw [Option.bind_some, List.getElem?_concat_length]
            rw [if_pos same, if_pos same, here]
            apply inductionHypothesis
            intro index found
            cases found
            omega
          · rw [if_neg same, if_neg same, ← bind_append_eq (nameOf shape) inside]
            apply inductionHypothesis
            intro index found
            have smaller := inside index found
            omega

theorem bodyName?_eq (node : Concrete) (lowered : Lowered (Rose (Nat × Label))) :
    bodyName? node (viewLowered nameOf lowered) =
      (bodyPlace? node (viewLowered treeOf lowered)).bind
        fun index => ((present lowered).map nameOf)[index]? := by
  rw [bodyName?, bodyPlace?, Option.bind_assoc]
  apply congrArg
  funext identity
  exact @lastOf_eq identity none [] lowered nofun

/-- The place where a kept tree begins can be read off the store. -/
theorem start_eq {statements : List (Rose (Nat × Label))} (position : Position)
    (keeps : store.Keeps (statements ++ others)) :
    ((((statements.map nameOf).head?).bind store.node?).map Node.position).getD position =
      (((statements.map treeOf).head?).map Tree.position).getD position := by
  cases statements with
  | nil => rfl
  | cons first rest =>
      rcases first with ⟨node, children⟩
      have records := keeps.records (List.mem_append_left _ List.mem_cons_self)
      have found : store.node? (nameOf (.node node children)) = _ :=
        @Store.Records.node?_eq store [] node children records
      rw [List.map_cons, List.head?_cons, Option.bind_some, found]
      rfl

theorem present_filter_view {α β : Type} (look : α → β) (chosen : Int → Bool)
    (lowered : Lowered α) :
    present ((viewLowered look lowered).filter fun child => chosen child.1) =
      (present (lowered.filter fun child => chosen child.1)).map look := by
  rw [← present_view, viewLowered, List.filter_map]
  rfl

/-- A new node without a body is kept over the trees whose names it lists. -/
theorem offers_plain {below : List (Rose (Nat × Label))} (kind : Kind) (position : Position)
    (keeps : store.Keeps (below ++ others)) :
    Store.Offers (store.grow { kind, position, children := below.map nameOf }) others
      (.plain kind position (below.map treeOf)) := by
  apply @Store.Keeps.grow store { kind, position } below others _ keeps
  rw [map_nameOf]
  rfl

theorem present_parts_perm {α : Type} (chosen : Int → Bool) (lowered : Lowered α) :
    (present (lowered.filter fun child => !chosen child.1) ++
      present (lowered.filter fun child => chosen child.1)).Perm (present lowered) := by
  have parts := List.filter_append_perm (fun child => chosen child.1) lowered
  rw [present, present, ← List.filterMap_append]
  exact (List.perm_append_comm.trans parts).filterMap Prod.snd

/-- A branch is kept over its block, and its block over its statements. -/
theorem offers_branch {values statements : List (Rose (Nat × Label))} (position start : Position)
    (keeps : store.Keeps (statements ++ (values ++ others))) :
    let block := store.grow { kind := .block, position := start, children := statements.map nameOf }
    Store.Offers
      (block.1.grow
        { kind := .switchCase, position, children := values.map nameOf ++ [block.2] }) others
      (.plain .switchCase position
        (values.map treeOf ++ [.plain .block start (statements.map treeOf)])) := by
  intro block
  rcases offers_plain .block start keeps with ⟨shape, kept, name, tree⟩
  -- The block goes behind the values, though it was built on top of all.
  have together : block.1.Keeps ((values ++ [shape]) ++ others) := by
    rw [List.append_assoc]
    exact kept.perm List.perm_middle.symm
  have branch := offers_plain .switchCase position together
  rw [List.map_append, List.map_append, List.map_singleton, List.map_singleton] at branch
  rw [← tree]
  have block := name
  exact name ▸ branch

theorem offers_assembleCase {lowered : Lowered (Rose (Nat × Label))} (node : Concrete)
    (position : Position) (keeps : store.Keeps (present lowered ++ others)) :
    Store.Offers (assembleCase store node (viewLowered nameOf lowered) position) others
      (buildCase node (viewLowered treeOf lowered) position) := by
  have values {β : Type} (look : Rose (Nat × Label) → β) := present_filter_view look
    (fun identity => node.identityInRole? "value" == some identity) lowered
  have statements {β : Type} (look : Rose (Nat × Label) → β) := present_filter_view look
    (fun identity => node.identityInRole? "value" != some identity) lowered
  have parts : (present (lowered.filter fun child => node.identityInRole? "value" != some child.1) ++
      present (lowered.filter fun child => node.identityInRole? "value" == some child.1)).Perm
        (present lowered) :=
    present_parts_perm (fun identity => node.identityInRole? "value" == some identity) lowered
  have apart := keeps.perm (parts.symm.append_right others)
  rw [List.append_assoc] at apart
  have start := start_eq position apart
  rw [assembleCase, buildCase, values nameOf, values treeOf, statements nameOf,
    statements treeOf, ← start]
  exact offers_branch position _ apart

/-- Whatever a node becomes as a plain tree is kept under the name that it gets. -/
theorem offers_assemble {lowered : Lowered (Rose (Nat × Label))} (source : List UInt8)
    (node : Concrete) (keeps : store.Keeps (present lowered ++ others)) :
    Store.Offers (assemble source store node (viewLowered nameOf lowered)) others
      (build source node (viewLowered treeOf lowered)) := by
  rw [assemble, build, present_view, present_view]
  by_cases wrapper : wrapperTypes.contains node.value.type = true
  · rw [if_pos wrapper, if_pos wrapper]
    rcases inner : present lowered with _ | ⟨first, _ | ⟨second, rest⟩⟩
    · rw [inner] at keeps
      exact offers_plain .other _ keeps
    · rw [inner] at keeps
      exact ⟨first, keeps, rfl, rfl⟩
    · rw [inner] at keeps
      exact offers_plain .other _ keeps
  rw [if_neg wrapper, if_neg wrapper]
  by_cases call : isCall node = true
  · rw [if_pos call, if_pos call, map_nameOf]
    exact keeps.grow rfl
  rw [if_neg call, if_neg call]
  by_cases function : functionTypes.contains node.value.type = true
  · rw [if_pos function, if_pos function, bodyName?_eq, map_nameOf]
    exact keeps.grow rfl
  rw [if_neg function, if_neg function]
  by_cases branch : caseTypes.contains node.value.type = true
  · rw [if_pos branch, if_pos branch]
    exact offers_assembleCase node _ keeps
  rw [if_neg branch, if_neg branch]
  exact offers_plain _ _ keeps

/-- A program is kept on top of a single tree, or the tree is a program itself. -/
theorem offers_encloseProgram {shape : Rose (Nat × Label)} (position : Position)
    (keeps : store.Keeps [shape]) :
    Store.Offers (encloseProgram position (store, nameOf shape)) []
      (wrapProgram position (treeOf shape)) := by
  rcases shape with ⟨node, children⟩
  have records := keeps.records List.mem_cons_self
  have found : store.node? (nameOf (.node node children)) = _ :=
    @Store.Records.node?_eq store [] node children records
  have kindEq : store.kind? (nameOf (.node node children)) = some node.2.kind := by
    rw [Store.kind?, found]
    rfl
  have outside := @offers_plain store [] [.node node children] .program position keeps
  have same : (treeOf (.node node children)).kind = node.2.kind := rfl
  rw [encloseProgram, wrapProgram, kindEq, same]
  cases node.2.kind with
  | program => exact ⟨_, keeps, rfl, rfl⟩
  | _ => exact outside

/-! ## The run -/

/-- An assembly tracks a table of trees if both are views of one table of shapes, which
its store keeps apart from each other. -/
def Assembly.Tracks (assembly : Assembly) (results : Results) : Prop :=
  ∃ shapes : Results (Rose (Nat × Label)), assembly.results = shapes.view nameOf ∧
    results = shapes.view treeOf ∧ assembly.store.Keeps (shapes.map Prod.snd)

namespace Assembly

variable {assembly : Assembly} {results : Results}

theorem Tracks.settle (tracks : assembly.Tracks results) (source : List UInt8) (node : Concrete) :
    (assembly.settle source node).Tracks (Lowering.settle source results node) := by
  rcases tracks with ⟨shapes, names, trees, keeps⟩
  have taken := present_takeAll_perm shapes
    (node.visibleChildren.map fun child => child.value.identity)
  have built := offers_assemble source node (keeps.perm taken.symm)
  rw [Assembly.settle, Lowering.settle, names, trees, takeAll_view, takeAll_view]
  rcases built with ⟨shape, kept, nameEq, treeEq⟩
  rw [← nameEq, ← treeEq, put_view, put_view]
  refine ⟨_, rfl, rfl, ?_⟩
  -- A result of the same identity is lost, so that fewer shapes may remain.
  apply kept.sublist
  exact (List.filter_sublist.map Prod.snd).cons_cons shape

theorem Tracks.step (tracks : assembly.Tracks results) (source : List UInt8) :
    (visit : Visit Concrete) →
      (assembly.step source visit).Tracks (Lowering.step source results visit)
  | .enter _ => tracks
  | .leave parent => tracks.settle source parent

theorem Tracks.run (tracks : assembly.Tracks results) (source : List UInt8)
    (steps : List (Visit Concrete)) :
    (steps.foldl (Assembly.step source) assembly).Tracks
      (steps.foldl (Lowering.step source) results) := by
  induction steps generalizing assembly results with
  | nil => exact tracks
  | cons visit steps inductionHypothesis => exact inductionHypothesis (tracks.step source visit)

/-- Assembling a tree keeps what lowering it leads to. -/
theorem tracks_ofRoot (source : List UInt8) (root : Concrete) :
    (ofRoot source root).Tracks (table source root) := by
  have empty : ({} : Assembly).Tracks [] := by
    refine ⟨[], rfl, rfl, ?_, ?_⟩
    · exact List.nodup_nil
    · intro shape member
      cases member
  rw [ofRoot, table, guide_eq_foldl, guide_eq_foldl]
  exact empty.run source root.visible.visits

end Assembly

end Lowering

namespace Script

open Lowering

/-- The linked nodes of a script record its syntax tree. -/
theorem exists_shape (script : Script) :
    ∃ shape, script.assembled.1.Records shape ∧ shape.value.1 = script.assembled.2 ∧
      shape.map Prod.snd = script.syntaxTree := by
  rcases Assembly.tracks_ofRoot script.source script.root with ⟨shapes, names, trees, keeps⟩
  rcases exists_lower? script.source script.root with ⟨tree, lowered⟩
  have found := lowered
  rw [lower?, trees, Results.get?_view, Option.map_eq_some_iff] at found
  rcases found with ⟨shape, here, same⟩
  have listed : shape ∈ shapes.map Prod.snd := by
    rcases Results.eq_of_get?_eq_some here with ⟨before, after, split, _⟩
    rw [split, List.map_append]
    exact List.mem_append_right _ List.mem_cons_self
  have alone := keeps.sublist (List.singleton_sublist.mpr listed)
  rw [assembled, syntaxTree, lowered, names, Results.get?_view, here, Option.map_some,
    Option.getD_some, ← same]
  rcases offers_encloseProgram (script.root.value.position script.source) alone with
    ⟨program, kept, name, treeEq⟩
  exact ⟨program, kept.records List.mem_cons_self, name, treeEq⟩

/-- Checking the linked nodes of a script finds what checking its syntax tree finds. -/
theorem check_assembled (script : Script) (names : List String) (path : Option String) :
    script.assembled.1.check names path script.assembled.2 =
      script.syntaxTree.check names path := by
  rcases script.exists_shape with ⟨shape, records, name, tree⟩
  rw [← name, ← tree, records.check_eq_check]

end Script

end CallbackLint
