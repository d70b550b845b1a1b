import CallbackLint.Concrete.Lowering
import CallbackLint.Proofs.Rose.Traversal

namespace CallbackLint

open Rose

/-!
# The table of results

Lowering keeps the results for nodes whose parent is still to come in a table,
under the identities of the nodes.  If no two nodes have the same identity, then
the traversal of a subtree adds one result to the table, that of lowering by
recursion, and leaves the other results alone: every parent finds the results of
its children where the traversal has put them, last child first.
-/

namespace Concrete

/-- The nodes of a concrete tree have different identities. -/
def Distinct (node : Concrete) : Prop := (node.preorder.map ConcreteLabel.identity).Nodup

instance (node : Concrete) : Decidable node.Distinct :=
  inferInstanceAs (Decidable (node.preorder.map ConcreteLabel.identity).Nodup)

theorem Distinct.child {node child : Concrete} (distinct : node.Distinct)
    (member : child ∈ node.children) : child.Distinct := by
  rcases node with ⟨label, children⟩
  rcases List.append_of_mem member with ⟨before, after, split⟩
  rw [children_node] at split
  rw [Distinct, preorder, split, preorderAll_append, preorderAll] at distinct
  have inside : child.preorder.Sublist
      (label :: (preorderAll before ++ (child.preorder ++ preorderAll after))) :=
    ((List.sublist_append_left _ _).trans (List.sublist_append_right _ _)).cons label
  exact List.Nodup.sublist (inside.map ConcreteLabel.identity) distinct

/-- The visible children of a node have different identities. -/
theorem Distinct.siblings {node : Concrete} (distinct : node.Distinct) :
    ((node.visibleChildren.map Rose.value).map ConcreteLabel.identity).Nodup := by
  rcases node with ⟨label, children⟩
  have among : ((children.filter fun child => child.value.isVisible).map Rose.value).Sublist
      (label :: preorderAll children) :=
    ((List.filter_sublist.map Rose.value).trans (map_value_sublist_preorderAll children)).cons label
  exact List.Nodup.sublist (among.map ConcreteLabel.identity) distinct

/-! ## Visited nodes -/

theorem value_visible (node : Concrete) : node.visible.value = node := by
  cases node with
  | node label children => rfl

theorem visibleAll_eq (nodes : List Concrete) :
    visibleAll nodes = (nodes.filter fun node => node.value.isVisible).map visible := by
  induction nodes with
  | nil => rfl
  | cons node rest inductionHypothesis =>
      rcases node with ⟨label, children⟩
      rw [visibleAll, List.filter_cons, value_node, inductionHypothesis]
      cases label.isVisible <;> rfl

theorem visible_eq (node : Concrete) :
    node.visible = .node node (node.visibleChildren.map visible) := by
  rcases node with ⟨label, children⟩
  rw [visible, visibleAll_eq]
  rfl

theorem map_value_visibleAll (nodes : List Concrete) :
    (visibleAll nodes).map Rose.value = nodes.filter fun node => node.value.isVisible := by
  have each : ∀ node ∈ nodes.filter fun node => node.value.isVisible,
      (Rose.value ∘ visible) node = id node := fun node _ => value_visible node
  rw [visibleAll_eq, List.map_map, List.map_congr_left each, List.map_id]

mutual

/-- The nodes that lowering visits are nodes of the tree, in the same order. -/
theorem preorder_visible_sublist : (node : Concrete) →
    (node.visible.preorder.map Rose.value).Sublist node.preorder
  | .node label children => by
      rw [visible, preorder, preorder, List.map_cons]
      exact (preorderAll_visibleAll_sublist children).cons_cons label

theorem preorderAll_visibleAll_sublist : (nodes : List Concrete) →
    ((preorderAll (visibleAll nodes)).map Rose.value).Sublist (preorderAll nodes)
  | [] => List.Sublist.refl _
  | .node label children :: rest => by
      rw [visibleAll, preorderAll]
      cases label.isVisible with
      | false => exact (preorderAll_visibleAll_sublist rest).trans (List.sublist_append_right _ _)
      | true =>
          rw [if_pos rfl, preorderAll, List.map_append]
          exact (preorder_visible_sublist _).append (preorderAll_visibleAll_sublist rest)

end

/-- The nodes that lowering visits have different identities if all nodes have. -/
theorem Distinct.visited {node : Concrete} (distinct : node.Distinct) :
    (node.visible.preorder.map fun visited => visited.value.identity).Nodup := by
  have among := (preorder_visible_sublist node).map ConcreteLabel.identity
  rw [List.map_map] at among
  exact List.Nodup.sublist among distinct

end Concrete

namespace Lowering

namespace Results

/-! ## Taking results out of the table -/

variable {α : Type} {before after : Results α} {identity : Int} {tree : α}

theorem get?_of_split (absent : ∀ entry ∈ before, entry.1 ≠ identity) :
    get? (before ++ (identity, tree) :: after) identity = some tree := by
  have earlier : before.find? (fun entry => entry.1 == identity) = none :=
    List.find?_eq_none.mpr fun entry member found => absent entry member (beq_iff_eq.mp found)
  rw [get?, List.find?_append, earlier, Option.none_or, List.find?_cons_of_pos]
  · rfl
  · exact beq_self_eq_true identity

theorem drop_of_split (absent : ∀ entry ∈ before, entry.1 ≠ identity) :
    drop (before ++ (identity, tree) :: after) identity = before ++ after := by
  rw [drop, List.eraseP_append_right]
  · rw [List.eraseP_cons_of_pos]
    exact beq_self_eq_true identity
  · intro entry member found
    exact absent entry member (beq_iff_eq.mp found)

/-- Results that have been put in front of a table one after the other are found
there, and what they have been put in front of remains. -/
theorem takeAll_reverse (entries results : Results α) (distinct : (entries.map Prod.fst).Nodup) :
    takeAll (entries.reverse ++ results) (entries.map Prod.fst) =
      (entries.map fun entry => (entry.1, some entry.2), results) := by
  induction entries generalizing results with
  | nil => rfl
  | cons entry entries inductionHypothesis =>
      rw [List.map_cons, List.nodup_cons] at distinct
      have absent : ∀ other ∈ entries.reverse, other.1 ≠ entry.1 := by
        intro other member same
        exact distinct.1 (same ▸ List.mem_map_of_mem (List.mem_reverse.mp member))
      have front : (entry :: entries).reverse ++ results =
          entries.reverse ++ (entry.1, entry.2) :: results := by
        rw [List.reverse_cons, List.append_assoc, List.singleton_append]
      rw [front, List.map_cons, takeAll, get?_of_split absent, drop_of_split absent,
        inductionHypothesis results distinct.2]
      rfl

/-- A result of a new identity is put in front. -/
theorem put_of_absent {results : Results α} (absent : ∀ entry ∈ results, entry.1 ≠ identity) :
    results.put identity tree = (identity, tree) :: results := by
  rw [put, List.filter_eq_self.mpr]
  intro entry member
  exact bne_iff_ne.mpr (absent entry member)

end Results

/-! ## Lowering by recursion -/

/-- The results that lowering by recursion has for some nodes. -/
def entriesOf (source : List UInt8) (nodes : List Concrete) : Results :=
  nodes.map fun node => (node.value.identity, lowerDirectly source node)

theorem lowerAllDirectly_eq (source : List UInt8) (children : List Concrete) :
    lowerAllDirectly source children =
      (entriesOf source (children.filter fun child => child.value.isVisible)).map fun entry =>
        (entry.1, some entry.2) := by
  induction children with
  | nil => rfl
  | cons child rest inductionHypothesis =>
      rcases child with ⟨label, below⟩
      rw [lowerAllDirectly, List.filter_cons, value_node, inductionHypothesis]
      cases label.isVisible <;> rfl

/-- A node is built from the results of its visible children. -/
theorem lowerDirectly_eq (source : List UInt8) (node : Concrete) :
    lowerDirectly source node =
      build source node ((entriesOf source node.visibleChildren).map fun entry =>
        (entry.1, some entry.2)) := by
  rcases node with ⟨label, children⟩
  rw [lowerDirectly, lowerAllDirectly_eq]
  rfl

theorem map_fst_entriesOf (source : List UInt8) (nodes : List Concrete) :
    (entriesOf source nodes).map Prod.fst =
      (nodes.map Rose.value).map ConcreteLabel.identity := by
  rw [entriesOf, List.map_map, List.map_map]
  rfl

/-! ## The traversal -/

variable (source : List UInt8)

/-- What visible children with different identities have put in front of a table is
found there, and taking it restores the table. -/
theorem takeAll_entriesOf {results : Results} {nodes : List Concrete}
    (distinct : ((nodes.map Rose.value).map ConcreteLabel.identity).Nodup) :
    Results.takeAll ((entriesOf source nodes).reverse ++ results)
        (nodes.map fun child => child.value.identity) =
      ((entriesOf source nodes).map fun entry => (entry.1, some entry.2), results) := by
  rw [← map_fst_entriesOf source] at distinct
  have taken := Results.takeAll_reverse _ results distinct
  rw [map_fst_entriesOf, List.map_map] at taken
  exact taken

/-- A node replaces the results of its visible children by its own. -/
theorem settle_entriesOf {results : Results} {node : Concrete}
    (distinct : ((node.visibleChildren.map Rose.value).map ConcreteLabel.identity).Nodup)
    (absent : ∀ entry ∈ results, entry.1 ≠ node.value.identity) :
    settle source ((entriesOf source node.visibleChildren).reverse ++ results) node =
      (node.value.identity, lowerDirectly source node) :: results := by
  rw [settle, takeAll_entriesOf source distinct, Results.put_of_absent absent, lowerDirectly_eq]

/-- Visited children with different identities settle a node. -/
theorem siblings_of_visited {label : ConcreteLabel} {children : List Concrete}
    (distinct : ((preorderAll (Concrete.visibleAll children)).map
      fun visited => visited.value.identity).Nodup) :
    (((Concrete.visibleChildren (.node label children)).map Rose.value).map
      ConcreteLabel.identity).Nodup := by
  have among := (map_value_sublist_preorderAll (Concrete.visibleAll children)).map
    fun visited => visited.value.identity
  rw [Concrete.map_value_visibleAll] at among
  rw [List.map_map]
  exact distinct.sublist among

mutual

/-- The traversal of a subtree puts the result of its root in front of the table, if the
nodes that it visits have different identities. -/
theorem foldl_visited (results : Results) : (node : Concrete) →
    (node.visible.preorder.map fun visited => visited.value.identity).Nodup →
    (∀ entry ∈ results,
      entry.1 ∉ node.visible.preorder.map fun visited => visited.value.identity) →
    node.visible.visits.foldl (step source) results =
      (node.value.identity, lowerDirectly source node) :: results
  | .node label children, distinct, fresh => by
      rw [Concrete.visible, preorder, List.map_cons] at distinct fresh
      rw [List.nodup_cons] at distinct
      have inside := foldl_visitedAll results children distinct.2 fun entry member found =>
        fresh entry member (List.mem_cons_of_mem _ found)
      rw [Concrete.visible, visits, List.foldl_cons, List.foldl_append, List.foldl_cons,
        List.foldl_nil, step, inside, step]
      apply settle_entriesOf
      · exact siblings_of_visited distinct.2
      · exact fun entry member same => fresh entry member (same ▸ List.mem_cons_self)

theorem foldl_visitedAll (results : Results) : (nodes : List Concrete) →
    ((preorderAll (Concrete.visibleAll nodes)).map fun visited => visited.value.identity).Nodup →
    (∀ entry ∈ results, entry.1 ∉
      (preorderAll (Concrete.visibleAll nodes)).map fun visited => visited.value.identity) →
    (visitsAll (Concrete.visibleAll nodes)).foldl (step source) results =
      (entriesOf source (nodes.filter fun node => node.value.isVisible)).reverse ++ results
  | [], _, _ => rfl
  | .node label children :: rest, distinct, fresh => by
      rw [Concrete.visibleAll] at distinct fresh ⊢
      rw [List.filter_cons, value_node]
      cases shown : label.isVisible with
      | false =>
          rw [shown] at distinct fresh
          exact foldl_visitedAll results rest distinct fresh
      | true =>
          rw [shown, if_pos rfl, preorderAll, List.map_append] at distinct fresh
          rw [List.nodup_append] at distinct
          rcases distinct with ⟨inFirst, inRest, apart⟩
          have first := foldl_visited results (.node label children) inFirst
            fun entry member found => fresh entry member (List.mem_append_left _ found)
          have root : label.identity ∈ (Concrete.visible (.node label children)).preorder.map
              fun visited => visited.value.identity := by
            rw [Concrete.visible]
            exact List.mem_cons_self
          rw [if_pos rfl, if_pos rfl, visitsAll, List.foldl_append, first,
            foldl_visitedAll _ rest inRest]
          · have entries : entriesOf source (.node label children ::
                rest.filter fun node => node.value.isVisible) =
                (label.identity, lowerDirectly source (.node label children)) ::
                  entriesOf source (rest.filter fun node => node.value.isVisible) := rfl
            rw [entries, List.reverse_cons, List.append_assoc]
            rfl
          · intro entry member
            rcases List.mem_cons.mp member with same | old
            · rw [same]
              exact fun found => apart _ root _ found rfl
            · exact fun found => fresh entry old (List.mem_append_right _ found)

end

theorem foldl_visits (results : Results) (node : Concrete) (distinct : node.Distinct)
    (fresh : ∀ entry ∈ results, entry.1 ∉ node.preorder.map ConcreteLabel.identity) :
    node.visible.visits.foldl (step source) results =
      (node.value.identity, lowerDirectly source node) :: results := by
  apply foldl_visited source results node distinct.visited
  intro entry member found
  have among := (Concrete.preorder_visible_sublist node).map ConcreteLabel.identity
  rw [List.map_map] at among
  exact fresh entry member (among.subset found)

theorem foldl_visitsAll (results : Results) (nodes : List Concrete)
    (distinct : ((preorderAll nodes).map ConcreteLabel.identity).Nodup)
    (fresh : ∀ entry ∈ results, entry.1 ∉ (preorderAll nodes).map ConcreteLabel.identity) :
    (visitsAll (Concrete.visibleAll nodes)).foldl (step source) results =
      (entriesOf source (nodes.filter fun node => node.value.isVisible)).reverse ++ results := by
  have among := (Concrete.preorderAll_visibleAll_sublist nodes).map ConcreteLabel.identity
  rw [List.map_map] at among
  apply foldl_visitedAll source results nodes (distinct.sublist among)
  intro entry member found
  exact fresh entry member (among.subset found)

/-- If the visited nodes have different identities, the traversal leaves nothing in the
table but the result of the root. -/
theorem table_eq_of_visited {root : Concrete}
    (distinct : (root.visible.preorder.map fun visited => visited.value.identity).Nodup) :
    table source root = [(root.value.identity, lowerDirectly source root)] := by
  rw [table, guide_eq_foldl, foldl_visited source [] root distinct fun entry member =>
    nomatch member]

/-- With different identities, the traversal leaves nothing in the table but the
result of the root. -/
theorem table_eq {root : Concrete} (distinct : root.Distinct) :
    table source root = [(root.value.identity, lowerDirectly source root)] :=
  table_eq_of_visited source distinct.visited

/-- If the visited nodes have different identities, lowering is lowering by recursion. -/
theorem lower?_eq_of_visited {root : Concrete}
    (distinct : (root.visible.preorder.map fun visited => visited.value.identity).Nodup) :
    lower? source root = some (lowerDirectly source root) := by
  have absent : ∀ entry ∈ ([] : Results), entry.1 ≠ root.value.identity :=
    fun entry member => nomatch member
  rw [lower?, table_eq_of_visited source distinct]
  exact Results.get?_of_split absent

/-- With different identities, lowering is lowering by recursion. -/
theorem lower?_eq {root : Concrete} (distinct : root.Distinct) :
    lower? source root = some (lowerDirectly source root) :=
  lower?_eq_of_visited source distinct.visited

end Lowering

end CallbackLint
