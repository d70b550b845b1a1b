import CallbackLint.Proofs.Rose.Context

namespace CallbackLint

/-!
# All places of a rose tree

The places of a tree are listed in the order in which a traversal enters them.
A pair of a context and a subtree is in the list exactly if the two make up the
tree, and the values at the places are the values of the tree in preorder.
-/

namespace Rose

variable {α : Type}

abbrev Focus (α : Type) := Context α × Rose α

mutual

/-- The places in a subtree that has a given context. -/
def placesFrom (context : Context α) : Rose α → List (Focus α)
  | .node value children =>
    (context, .node value children) :: placesBelow value context [] [] children

/-- The places in adjacent subtrees below a value, between the subtrees `before`
and `beyond`. -/
def placesBelow (value : α) (context : Context α) (before beyond : List (Rose α)) :
    List (Rose α) → List (Focus α)
  | [] => []
  | tree :: rest =>
    placesFrom ({ value, before, after := rest ++ beyond } :: context) tree ++
      placesBelow value context (before ++ [tree]) beyond rest

end

/-- The places of a whole tree. -/
def places (tree : Rose α) : List (Focus α) := placesFrom [] tree

theorem placesBelow_append (value : α) (context : Context α)
    (before beyond first second : List (Rose α)) :
    placesBelow value context before beyond (first ++ second) =
      placesBelow value context before (second ++ beyond) first ++
        placesBelow value context (before ++ first) beyond second := by
  induction first generalizing before with
  | nil => rw [List.nil_append, placesBelow, List.nil_append, List.append_nil]
  | cons tree rest inductionHypothesis =>
      rw [List.cons_append, placesBelow, placesBelow, inductionHypothesis, List.append_assoc,
        List.append_assoc, List.append_assoc, List.singleton_append]

mutual

theorem map_placesFrom (context : Context α) : (tree : Rose α) →
    (placesFrom context tree).map (fun place => place.2.value) = tree.preorder
  | .node value children => by
      rw [placesFrom, List.map_cons, map_placesBelow, preorder]
      rfl

theorem map_placesBelow (value : α) (context : Context α) (before beyond : List (Rose α)) :
    (trees : List (Rose α)) →
    (placesBelow value context before beyond trees).map (fun place => place.2.value) =
      preorderAll trees
  | [] => rfl
  | tree :: rest => by
      rw [placesBelow, List.map_append, map_placesFrom, map_placesBelow, preorderAll]

end

/-- Each value of a tree has its place, in preorder. -/
theorem map_places (tree : Rose α) :
    (places tree).map (fun place => place.2.value) = tree.preorder :=
  map_placesFrom [] tree

mutual

theorem fill_of_mem_placesFrom {context : Context α} {place : Focus α} : (tree : Rose α) →
    place ∈ placesFrom context tree → fill place.1 place.2 = fill context tree
  | .node value children, member => by
      rw [placesFrom] at member
      rcases List.mem_cons.mp member with same | below
      · rw [same]
      · have inside := fill_of_mem_placesBelow children below
        rw [List.nil_append, List.append_nil] at inside
        exact inside

theorem fill_of_mem_placesBelow {value : α} {context : Context α} {before beyond : List (Rose α)}
    {place : Focus α} : (trees : List (Rose α)) →
    place ∈ placesBelow value context before beyond trees →
    fill place.1 place.2 = fill context (.node value (before ++ trees ++ beyond))
  | [], member => nomatch member
  | tree :: rest, member => by
      rw [placesBelow] at member
      rcases List.mem_append.mp member with first | later
      · rw [fill_of_mem_placesFrom tree first, fill, Crumb.fill, List.append_assoc,
          List.cons_append]
      · rw [fill_of_mem_placesBelow rest later, List.append_assoc before, List.singleton_append]

end

theorem mem_placesFrom_self (context : Context α) (tree : Rose α) :
    (context, tree) ∈ placesFrom context tree := by
  cases tree with
  | node value children => exact List.mem_cons_self

mutual

/-- With a place, the places right below it are listed too. -/
theorem mem_placesFrom_below {context : Context α} {crumb : Crumb α} {outer : Context α}
    {subtree : Rose α} : (tree : Rose α) →
    (outer, crumb.fill subtree) ∈ placesFrom context tree →
    (crumb :: outer, subtree) ∈ placesFrom context tree
  | .node value children, member => by
      rw [placesFrom] at member ⊢
      apply List.mem_cons_of_mem
      rcases List.mem_cons.mp member with same | below
      · rw [Prod.mk.injEq, Crumb.fill, node.injEq] at same
        rcases same with ⟨contextEq, valueEq, childrenEq⟩
        rw [← childrenEq, ← contextEq, ← valueEq, placesBelow_append, List.append_nil, placesBelow,
          List.append_nil, List.nil_append]
        exact List.mem_append_right _
          (List.mem_append_left _ (mem_placesFrom_self (crumb :: outer) subtree))
      · exact mem_placesBelow_below children below

theorem mem_placesBelow_below {value : α} {context : Context α} {before beyond : List (Rose α)}
    {crumb : Crumb α} {outer : Context α} {subtree : Rose α} : (trees : List (Rose α)) →
    (outer, crumb.fill subtree) ∈ placesBelow value context before beyond trees →
    (crumb :: outer, subtree) ∈ placesBelow value context before beyond trees
  | [], member => nomatch member
  | tree :: rest, member => by
      rw [placesBelow] at member ⊢
      rcases List.mem_append.mp member with first | later
      · exact List.mem_append_left _ (mem_placesFrom_below tree first)
      · exact List.mem_append_right _ (mem_placesBelow_below rest later)

end

/-- The places are all the ways to take the tree apart. -/
theorem mem_places {tree : Rose α} {context : Context α} {subtree : Rose α} :
    (context, subtree) ∈ places tree ↔ fill context subtree = tree := by
  constructor
  · intro member
    exact fill_of_mem_placesFrom tree member
  · intro whole
    induction context generalizing subtree with
    | nil => exact whole ▸ mem_placesFrom_self [] subtree
    | cons crumb context inductionHypothesis =>
        exact mem_placesFrom_below tree (inductionHypothesis whole)

end Rose

end CallbackLint
