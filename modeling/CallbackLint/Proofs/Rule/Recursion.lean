import CallbackLint.Proofs.Rule.Ladder

namespace CallbackLint

open Rose

/-!
# A check by recursion on the tree

`Tree.sightings` goes down a syntax tree with the ladder of the present node as
an argument.  It knows no names, no links and no frames, and it finds what a check
finds, in any store that records the tree.

The ladder only matters up to the innermost function: what is above it is hidden
from the calls inside.
-/

/-- The call that a node is, if it is one of an identifier, seen at the foot of a
ladder. -/
def Label.sighting? (rungs : List Rung) (label : Label) : Option Sighting :=
  if label.kind = .call then
    label.callee.map fun callee =>
      { callee, position := label.position, placement := Rung.placement rungs }
  else none

theorem Label.sighting?_of_not_call {label : Label} (noCall : label.kind ≠ .call)
    (rungs : List Rung) : label.sighting? rungs = none := if_neg noCall

namespace Tree

mutual

/-- The calls of a tree, seen with the ladder of its root. -/
def sightings (rungs : List Rung) : Tree → List Sighting
  | .node label children =>
    (label.sighting? rungs).toList ++ sightingsAll label rungs 0 none children

/-- The calls of adjacent trees, the first of which is at a given place below a
node.  After the last of them comes a node of kind `next`, if any. -/
def sightingsAll (upper : Label) (rungs : List Rung) (place : Nat) (next : Option Kind) :
    List Tree → List Sighting
  | [] => []
  | tree :: rest =>
    sightings ({ upper, place, lower := tree.value.kind
                 next := (rest.head?.map Tree.kind).or next } :: rungs) tree ++
      sightingsAll upper rungs (place + 1) next rest

end

theorem sightingsAll_append (upper : Label) (rungs : List Rung) (place : Nat)
    (next : Option Kind) (first second : List Tree) :
    sightingsAll upper rungs place next (first ++ second) =
      sightingsAll upper rungs place ((second.head?.map Tree.kind).or next) first ++
        sightingsAll upper rungs (place + first.length) next second := by
  induction first generalizing place with
  | nil => rfl
  | cons tree rest inductionHypothesis =>
      have after : ((rest ++ second).head?.map Tree.kind).or next =
          (rest.head?.map Tree.kind).or ((second.head?.map Tree.kind).or next) := by
        cases rest <;> rfl
      rw [List.cons_append, sightingsAll, sightingsAll, inductionHypothesis, after,
        List.append_assoc, List.length_cons, Nat.add_right_comm, Nat.add_assoc]

end Tree

/-! ## What a check finds -/

namespace Store.Records

variable {store : Store}

theorem sightingAt_eq {context : Context (Nat × Label)} {tree : Rose (Nat × Label)}
    (records : store.Records (fill context tree)) :
    store.sightingAt {} tree.value.1 = tree.value.2.sighting? (ladderAt context tree) := by
  have seen := Inspection.sighting?_eq_sightingAt {} records.holds_fill
  have current := Scopes.current?_enterEach {} (store.functionsAbove (mapContext Prod.fst context))
  rw [value_map] at seen
  rw [show (({} : Scopes).current?.map Frame.function) = none from rfl, Option.or_none] at current
  rw [← seen, sighting?, records.placementOf_eq current]
  cases tree with
  | node value below =>
      rw [value_node, records.node?_eq]
      rfl

mutual

/-- Along the links of a store and by recursion on the tree, the same calls are
seen. -/
theorem filterMap_sightingAt (context : Context (Nat × Label)) :
    (tree : Rose (Nat × Label)) → store.Records (fill context tree) →
    (tree.map Prod.fst).preorder.filterMap (store.sightingAt {}) =
      Tree.sightings (ladderAt context tree) (tree.map Prod.snd)
  | .node named below, records => by
      have here := records.sightingAt_eq
      rw [value_node] at here
      rw [Rose.map, Rose.map, filterMap_preorder, here, Tree.sightings,
        filterMap_sightingAtAll context named [] below records]
      rfl

theorem filterMap_sightingAtAll (context : Context (Nat × Label)) (named : Nat × Label)
    (before : List (Rose (Nat × Label))) :
    (trees : List (Rose (Nat × Label))) →
    store.Records (fill context (.node named (before ++ trees))) →
    (preorderAll (mapAll Prod.fst trees)).filterMap (store.sightingAt {}) =
      Tree.sightingsAll named.2 (ladderAt context (.node named (before ++ trees))) before.length
        none (mapAll Prod.snd trees)
  | [], _ => rfl
  | tree :: rest, records => by
      have first := filterMap_sightingAt ({ value := named, before, after := rest } :: context)
        tree records
      rw [List.append_cons] at records
      have later := filterMap_sightingAtAll context named (before ++ [tree]) rest records
      rw [mapAll, mapAll, preorderAll, List.filterMap_append, first, later, ladderAt_cons,
        Tree.sightingsAll, value_map, List.length_append, Option.or_none, Store.head?_kind,
        ← List.append_cons]
      rfl

end

/-- A check of any store that records a tree finds the sightings of the tree. -/
theorem check_eq {shape : Rose (Nat × Label)} (records : store.Records shape)
    (names : List String) (path : Option String) :
    store.check names path shape.value.1 =
      { diagnostics := (Tree.sightings [] (shape.map Prod.snd)).filterMap
          (Sighting.report? names path)
        notes := (Tree.sightings [] (shape.map Prod.snd)).filterMap (Sighting.note? names) } := by
  have found := Store.check_eq records.holds names path
  rw [value_map] at found
  rw [found, filterMap_sightingAt [] shape records]
  rfl

end Store.Records

theorem Tree.check_eq (tree : Tree) (names : List String) (path : Option String) :
    tree.check names path =
      { diagnostics := (sightings [] tree).filterMap (Sighting.report? names path)
        notes := (sightings [] tree).filterMap (Sighting.note? names) } := by
  have found := (Store.records_ofTree tree).check_eq names path
  rw [Store.map_numbered, Store.value_numbered] at found
  exact found

namespace Tree

mutual

/-- What is seen of a tree are calls in it. -/
theorem exists_label_of_mem_sightings {rungs : List Rung} {sighting : Sighting} :
    (tree : Tree) → sighting ∈ tree.sightings rungs →
    ∃ label ∈ tree.preorder, label.callee = some sighting.callee ∧
      label.position = sighting.position
  | .node label children, member => by
      rw [sightings, List.mem_append] at member
      rw [preorder]
      rcases member with here | below
      · rw [Option.mem_toList, Label.sighting?] at here
        split at here
        · rcases Option.map_eq_some_iff.mp here with ⟨callee, isCallee, rfl⟩
          exact ⟨label, List.mem_cons_self, isCallee, rfl⟩
        · cases here
      · rcases exists_label_of_mem_sightingsAll children below with ⟨found, inside, same⟩
        exact ⟨found, List.mem_cons_of_mem _ inside, same⟩

theorem exists_label_of_mem_sightingsAll {upper : Label} {rungs : List Rung} {place : Nat}
    {next : Option Kind} {sighting : Sighting} :
    (trees : List Tree) → sighting ∈ sightingsAll upper rungs place next trees →
    ∃ label ∈ preorderAll trees, label.callee = some sighting.callee ∧
      label.position = sighting.position
  | [], member => nomatch member
  | tree :: rest, member => by
      rw [sightingsAll, List.mem_append] at member
      rw [preorderAll]
      rcases member with here | later
      · rcases exists_label_of_mem_sightings tree here with ⟨found, inside, same⟩
        exact ⟨found, List.mem_append_left _ inside, same⟩
      · rcases exists_label_of_mem_sightingsAll rest later with ⟨found, inside, same⟩
        exact ⟨found, List.mem_append_right _ inside, same⟩

end

end Tree

/-- What a check finds does not depend on the names of the nodes. -/
theorem Store.Records.check_eq_check {store : Store} {shape : Rose (Nat × Label)}
    (records : store.Records shape) (names : List String) (path : Option String) :
    store.check names path shape.value.1 = Tree.check (shape.map Prod.snd) names path := by
  rw [records.check_eq, Tree.check_eq]

/-! ## What the innermost function hides -/

namespace Rung

/-- The lower part of a ladder hides the upper part: if there is a function in the
upper part then there is one in the lower part already. -/
def Hides (inner outer : List Rung) : Prop :=
  outer.any isFunction = true → inner.any isFunction = true

theorem Hides.cons {inner outer : List Rung} (hides : Hides inner outer) (rung : Rung) :
    Hides (rung :: inner) outer := by
  intro found
  rw [List.any_cons, hides found, Bool.or_true]

variable {inner : List Rung} (outer : List Rung) (found : inner.any isFunction = true)
include found

theorem isReturnOperand_append :
    isReturnOperand (inner ++ outer) = isReturnOperand inner := by
  cases inner with
  | nil => cases found
  | cons rung inner => rfl

theorem isFollowedByReturn_append :
    isFollowedByReturn (inner ++ outer) = isFollowedByReturn inner := by
  rcases inner with _ | ⟨statement, _ | ⟨list, inner⟩⟩
  · cases found
  · rw [List.any_cons, List.any_nil, Bool.or_false, isFunction, beq_iff_eq] at found
    cases outer with
    | nil => rfl
    | cons list outer =>
        rw [List.singleton_append, isFollowedByReturn, found]
        rfl
  · rfl

theorem isGuarded_append : isGuarded (inner ++ outer) = isGuarded inner := by
  rcases inner with _ | ⟨operation, _ | ⟨statement, inner⟩⟩
  · cases found
  · rw [List.any_cons, List.any_nil, Bool.or_false, isFunction, beq_iff_eq] at found
    cases outer with
    | nil => rfl
    | cons statement outer =>
        rw [List.singleton_append, isGuarded, found]
        rfl
  · rfl

theorem isFunctionTail_append : isFunctionTail (inner ++ outer) = isFunctionTail inner := by
  rcases inner with _ | ⟨statement, _ | ⟨block, _ | ⟨function, inner⟩⟩⟩
  · cases found
  · rw [List.any_cons, List.any_nil, Bool.or_false, isFunction, beq_iff_eq] at found
    cases outer with
    | nil => rfl
    | cons block outer =>
        rw [List.singleton_append, isFunctionTail, found]
        rfl
  · rw [List.any_cons, List.any_cons, List.any_nil, Bool.or_false, Bool.or_eq_true, isFunction,
      isFunction, beq_iff_eq, beq_iff_eq] at found
    rw [List.cons_append, List.singleton_append, isFunctionTail, isFunctionTail]
    rcases found with noStatement | noBlock
    · rw [noStatement]
      rfl
    · have refused : (Kind.function == Kind.block) = false := rfl
      rw [noBlock, refused, Bool.and_false, Bool.false_and, Bool.false_and, Bool.false_and]
  · rfl

end Rung

/-- A placement depends on the ladder up to the innermost function only. -/
theorem Rung.placement_append {inner outer : List Rung} (hides : Hides inner outer) :
    placement (inner ++ outer) = placement inner := by
  rw [placement, placement, List.find?_append]
  cases found : inner.find? isFunction with
  | none =>
      have innerNone : inner.any isFunction = false := by
        rw [← List.isSome_find?, found]
        rfl
      have outerNone : outer.find? isFunction = none := by
        cases outerFound : outer.find? isFunction with
        | none => rfl
        | some function =>
            have impossible := hides (by rw [← List.isSome_find?, outerFound]; rfl)
            rw [innerNone] at impossible
            cases impossible
      rw [outerNone]
      rfl
  | some function =>
      have inside : inner.any isFunction = true := by
        rw [← List.isSome_find?, found]
        rfl
      rw [Option.some_or, isReturnOperand_append outer inside,
        isFollowedByReturn_append outer inside, isGuarded_append outer inside,
        isFunctionTail_append outer inside]

namespace Tree

mutual

/-- What is hidden from a tree does not matter for its calls. -/
theorem sightings_append {inner outer : List Rung} (hides : Rung.Hides inner outer) :
    (tree : Tree) → sightings (inner ++ outer) tree = sightings inner tree
  | .node label children => by
      rw [sightings, sightings, Label.sighting?, Label.sighting?, Rung.placement_append hides,
        sightingsAll_hidden (fun rung _ => hides.cons rung) 0 none children]

theorem sightingsAll_hidden {upper : Label} {inner outer : List Rung}
    (hides : ∀ rung : Rung, rung.upper = upper → Rung.Hides (rung :: inner) outer)
    (place : Nat) (next : Option Kind) : (trees : List Tree) →
    sightingsAll upper (inner ++ outer) place next trees =
      sightingsAll upper inner place next trees
  | [] => rfl
  | tree :: rest => by
      rw [sightingsAll, sightingsAll, ← List.cons_append, sightings_append (hides _ rfl) tree,
        sightingsAll_hidden hides (place + 1) next rest]

end

/-- The calls in a function are seen as in the function alone. -/
theorem sightings_of_function {tree : Tree} (isFunction : tree.kind = .function)
    (rungs : List Rung) : sightings rungs tree = sightings [] tree := by
  cases tree with
  | node label children =>
      have hides : ∀ rung : Rung, rung.upper = label → Rung.Hides (rung :: []) rungs := by
        intro rung same _
        rw [List.any_cons, Rung.isFunction, same]
        exact Bool.or_eq_true_iff.mpr (Or.inl (beq_iff_eq.mpr isFunction))
      have noCall : label.kind ≠ .call := fun isCall =>
        Kind.noConfusion (isCall.symm.trans isFunction)
      have inside := sightingsAll_hidden hides 0 none children
      rw [List.nil_append] at inside
      rw [sightings, sightings, Label.sighting?_of_not_call noCall,
        Label.sighting?_of_not_call noCall, inside]

end Tree

end CallbackLint
