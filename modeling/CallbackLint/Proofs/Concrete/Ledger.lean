import CallbackLint.Proofs.Concrete.Table
import CallbackLint.Proofs.Rose.Rounds

namespace CallbackLint

open Rose

/-!
# Who takes which result

A node that is left takes the results of its visible children out of the table,
and what it finds there may be the result of another node of the same identity, or
nothing.  The withdrawals of a run are the record of this.

If all identities differ, then the record follows the edges of the tree: each node
below the root is withdrawn once, by the node above it, and what is found is the
result of lowering by recursion.  Whatever the identities, the root is the last
node to put its result into the table, so that there is a result for it.
-/

namespace Lowering

/-- What a node finds in the table under the identity of one of its children. -/
structure Withdrawal where
  parent : Concrete
  identity : Int
  result : Option Tree

def withdraw (results : Results) (node : Concrete) : List Withdrawal :=
  (results.takeAll (node.visibleChildren.map fun child => child.value.identity)).1.map
    fun taken => { parent := node, identity := taken.1, result := taken.2 }

variable (source : List UInt8)

/-- The withdrawals of some steps of a traversal that begins with a given table. -/
def withdrawals (results : Results) : List (Visit Concrete) → List Withdrawal
  | [] => []
  | .enter _ :: steps => withdrawals results steps
  | .leave parent :: steps =>
    withdraw results parent ++ withdrawals (settle source results parent) steps

theorem withdrawals_append (results : Results) (first second : List (Visit Concrete)) :
    withdrawals source results (first ++ second) =
      withdrawals source results first ++
        withdrawals source (first.foldl (step source) results) second := by
  induction first generalizing results with
  | nil => rfl
  | cons visit first inductionHypothesis =>
      cases visit with
      | enter entered => exact inductionHypothesis results
      | leave parent =>
          rw [List.cons_append, withdrawals, withdrawals, inductionHypothesis, List.append_assoc]
          rfl

/-- The withdrawal along an edge, where lowering by recursion gives the result. -/
def handover (edge : Concrete × Concrete) : Withdrawal :=
  { parent := edge.1, identity := edge.2.value.identity
    result := some (lowerDirectly source edge.2) }

/-- A node finds what its visible children have put in front of the table. -/
theorem withdraw_entriesOf (results : Results) {node : Concrete}
    (distinct : ((node.visibleChildren.map Rose.value).map ConcreteLabel.identity).Nodup) :
    withdraw ((entriesOf source node.visibleChildren).reverse ++ results) node =
      node.visibleChildren.map fun child => handover source (node, child) := by
  rw [withdraw, takeAll_entriesOf source distinct, entriesOf, List.map_map, List.map_map]
  rfl

mutual

/-- The withdrawals within a subtree follow its edges. -/
theorem withdrawals_visits (results : Results) : (node : Concrete) → node.Distinct →
    (∀ entry ∈ results, entry.1 ∉ node.preorder.map ConcreteLabel.identity) →
    withdrawals source results node.visible.visits = node.visible.edges.map (handover source)
  | .node label children, distinct, fresh => by
      have siblings := distinct.siblings
      rw [Concrete.Distinct, preorder, List.map_cons, List.nodup_cons] at distinct
      have later : ∀ entry ∈ results, entry.1 ∉ (preorderAll children).map ConcreteLabel.identity :=
        fun entry member found => fresh entry member (List.mem_cons_of_mem _ found)
      have inside := withdrawals_visitsAll results children distinct.2 later
      have own := withdraw_entriesOf source results siblings
      rw [Concrete.visible, visits, withdrawals, withdrawals_append, inside,
        foldl_visitsAll source results children distinct.2 later, withdrawals, withdrawals,
        List.append_nil, edges, List.map_append, List.map_map]
      have roots : children.filter (fun child => child.value.isVisible) =
          (Concrete.visibleAll children).map Rose.value :=
        (Concrete.map_value_visibleAll children).symm
      rw [Concrete.visibleChildren, children_node, roots, List.map_map] at own
      rw [roots, own]
      rfl

theorem withdrawals_visitsAll (results : Results) : (nodes : List Concrete) →
    ((preorderAll nodes).map ConcreteLabel.identity).Nodup →
    (∀ entry ∈ results, entry.1 ∉ (preorderAll nodes).map ConcreteLabel.identity) →
    withdrawals source results (visitsAll (Concrete.visibleAll nodes)) =
      (edgesAll (Concrete.visibleAll nodes)).map (handover source)
  | [], _, _ => rfl
  | .node label children :: rest, distinct, fresh => by
      rw [preorderAll, List.map_append, List.nodup_append] at distinct
      rcases distinct with ⟨inFirst, inRest, apart⟩
      rw [preorderAll, List.map_append] at fresh
      have later : ∀ entry ∈ results, entry.1 ∉ (preorderAll rest).map ConcreteLabel.identity :=
        fun entry member found => fresh entry member (List.mem_append_right _ found)
      rw [Concrete.visibleAll]
      cases label.isVisible with
      | false => exact withdrawals_visitsAll results rest inRest later
      | true =>
          have early : ∀ entry ∈ results,
              entry.1 ∉ (preorder (.node label children)).map ConcreteLabel.identity :=
            fun entry member found => fresh entry member (List.mem_append_left _ found)
          have root : label.identity ∈
              (preorder (.node label children)).map ConcreteLabel.identity := List.mem_cons_self
          rw [if_pos rfl, visitsAll, edgesAll, withdrawals_append, List.map_append,
            withdrawals_visits results (.node label children) inFirst early,
            foldl_visits source results (.node label children) inFirst early,
            withdrawals_visitsAll _ rest inRest]
          intro entry member
          rcases List.mem_cons.mp member with same | old
          · rw [same]
            exact fun found => apart _ root _ found rfl
          · exact later entry old

end

/-- Of some items with different keys, one has a given key. -/
theorem filter_key_eq {α : Type} {key : α → Int} {items : List α} {item : α}
    (distinct : (items.map key).Nodup) (member : item ∈ items) :
    items.filter (fun other => key other == key item) = [item] := by
  induction items with
  | nil => cases member
  | cons first rest inductionHypothesis =>
      rw [List.map_cons, List.nodup_cons] at distinct
      rcases List.mem_cons.mp member with same | later
      · have others : rest.filter (fun other => key other == key item) = [] := by
          apply List.filter_eq_nil_iff.mpr
          intro other listed equal
          rw [beq_iff_eq, same] at equal
          exact distinct.1 (equal ▸ List.mem_map_of_mem listed)
        rw [List.filter_cons, same, if_pos (beq_self_eq_true (key first)), ← same, others]
      · have different : ¬ (key first == key item) = true := by
          intro equal
          rw [beq_iff_eq] at equal
          exact distinct.1 (equal ▸ List.mem_map_of_mem later)
        rw [List.filter_cons, if_neg different]
        exact inductionHypothesis distinct.2 later

/-- With different identities, a node below the root is withdrawn once, by the node
above it. -/
theorem filter_withdrawals {root : Concrete} (distinct : root.Distinct) {crumb : Crumb Concrete}
    {context : Context Concrete} {tree : Rose Concrete}
    (place : fill (crumb :: context) tree = root.visible) :
    ((withdrawals source [] root.visible.walk).filter fun withdrawal =>
        withdrawal.identity == tree.value.value.identity) =
      [handover source (crumb.value, tree.value)] := by
  have fresh : ∀ entry ∈ ([] : Results), entry.1 ∉ root.preorder.map ConcreteLabel.identity :=
    fun entry member => nomatch member
  have edge : (crumb.value, tree.value) ∈ root.visible.edges :=
    place ▸ edge_mem_fill crumb context tree
  have lowerEnds : ((root.visible.edges.map (handover source)).map Withdrawal.identity).Nodup := by
    have ends := (map_snd_edges_perm root.visible).map fun visited : Concrete =>
      visited.value.identity
    have others := (List.nodup_cons.mp (ends.nodup_iff.mpr distinct.visited)).2
    rw [List.map_map] at others ⊢
    exact others
  rw [walk_eq_visits, withdrawals_visits source [] root distinct fresh]
  exact filter_key_eq lowerEnds (List.mem_map_of_mem edge)

/-! ## Lowering as a whole -/

theorem get?_put {α : Type} (results : Results α) (identity : Int) (result : α) :
    (results.put identity result).get? identity = some result := by
  rw [Results.put, Results.get?, List.find?_cons_of_pos]
  · rfl
  · exact beq_self_eq_true identity

/-- The root puts its result into the table in the last round. -/
theorem exists_lower? (root : Concrete) : ∃ tree, lower? source root = some tree := by
  rcases root with ⟨label, children⟩
  rw [lower?, table, guide_eq_foldl, Concrete.visible, visits, List.foldl_cons, List.foldl_append,
    List.foldl_cons, List.foldl_nil, step]
  exact ⟨_, get?_put _ _ _⟩

/-- The loop of lowering ends after two rounds for each node that it visits, and not
before, and there is a result for the root.  With different identities, this is the
result of lowering by recursion, nothing else is left in the table, and each node
below the root was withdrawn once, by the node above it. -/
theorem lower_follows_recursion (root : Concrete) :
    (∀ count, count < 2 * root.visible.size →
      ((round (step source))^[count] ([], [.explore root.visible])).2 ≠ []) ∧
      (round (step source))^[2 * root.visible.size] ([], [.explore root.visible]) =
        (table source root, []) ∧
      (∃ tree, lower? source root = some tree) ∧
      (∀ node, lowerDirectly source node = build source node (node.visibleChildren.map
        fun child => (child.value.identity, some (lowerDirectly source child)))) ∧
      (root.Distinct →
        lower? source root = some (lowerDirectly source root) ∧
        table source root = [(root.value.identity, lowerDirectly source root)] ∧
        ∀ crumb context tree, fill (crumb :: context) tree = root.visible →
          ((withdrawals source [] root.visible.walk).filter fun withdrawal =>
              withdrawal.identity == tree.value.value.identity) =
            [{ parent := crumb.value, identity := tree.value.value.identity
               result := some (lowerDirectly source tree.value) }]) := by
  refine ⟨?_, ?_, ?_, ?_, ?_⟩
  · intro count early
    exact agenda_ne_nil (step source) early []
  · exact rounds_eq_guide (step source) [] root.visible
  · exact exists_lower? source root
  · intro node
    rw [lowerDirectly_eq, entriesOf, List.map_map]
    rfl
  · intro distinct
    refine ⟨lower?_eq source distinct, table_eq source distinct, ?_⟩
    intro crumb context tree place
    exact filter_withdrawals source distinct place

/-- A `return` of a call in parentheses, with a comment on the way. -/
def parenthesizedReturn : Concrete :=
  .node { type := "return_statement", identity := 1, stop := 19 } [
    .node { type := "comment", identity := 2, column := 6, start := 6, stop := 12 } [],
    .node { type := "parenthesized_expression", identity := 3,
            column := 12, start := 12, stop := 18 } [
      .node { type := "call_expression", identity := 4,
              column := 13, start := 13, stop := 17 } [
        .node { type := "identifier", field := some "function", identity := 5,
                column := 13, start := 13, stop := 15 } []]]]

theorem lower_follows_parenthesizedReturn :
    let source := "return/*on*/(cb());".toUTF8.toList
    parenthesizedReturn.Distinct ∧
      lower? source parenthesizedReturn = some (lowerDirectly source parenthesizedReturn) ∧
      table source parenthesizedReturn = [(1, lowerDirectly source parenthesizedReturn)] ∧
      ∀ crumb context tree, fill (crumb :: context) tree = parenthesizedReturn.visible →
        ((withdrawals source [] parenthesizedReturn.visible.walk).filter fun withdrawal =>
            withdrawal.identity == tree.value.value.identity) =
          [{ parent := crumb.value, identity := tree.value.value.identity
             result := some (lowerDirectly source tree.value) }] :=
  ⟨by decide, (lower_follows_recursion _ parenthesizedReturn).2.2.2.2 (by decide)⟩

end Lowering

end CallbackLint
