import CallbackLint.Proofs.Rose.Places
import Mathlib.Data.List.Nodup

namespace CallbackLint

/-!
# Lineages

The lineage of a node is its value together with the values above it, nearest first.
The lineages of a tree in preorder tell how its nodes are ordered and which of them stand
above which.

Two trees of the same form are the two sides of a tree of pairs, so that nodes of one tree
can be followed to the nodes of the other.
-/

namespace Rose

variable {α β γ : Type}

mutual

/-- The values in preorder, each with the values above it, nearest first. -/
def lineages (above : List α) : Rose α → List (α × List α)
  | .node value children => (value, above) :: lineagesAll (value :: above) children

def lineagesAll (above : List α) : List (Rose α) → List (α × List α)
  | [] => []
  | tree :: rest => tree.lineages above ++ lineagesAll above rest

end

theorem lineagesAll_append (above : List α) (first second : List (Rose α)) :
    lineagesAll above (first ++ second) = lineagesAll above first ++ lineagesAll above second := by
  induction first with
  | nil => rfl
  | cons tree rest inductionHypothesis =>
      rw [List.cons_append, lineagesAll, lineagesAll, inductionHypothesis, List.append_assoc]

mutual

theorem map_fst_lineages (above : List α) : (tree : Rose α) →
    (tree.lineages above).map Prod.fst = tree.preorder
  | .node value children => by
      rw [lineages, List.map_cons, map_fst_lineagesAll, preorder]

theorem map_fst_lineagesAll (above : List α) : (trees : List (Rose α)) →
    (lineagesAll above trees).map Prod.fst = preorderAll trees
  | [] => rfl
  | tree :: rest => by
      rw [lineagesAll, List.map_append, map_fst_lineages, map_fst_lineagesAll, preorderAll]

end

mutual

/-- Changed values have changed lineages. -/
theorem lineages_map (change : α → β) (above : List α) : (tree : Rose α) →
    (tree.map change).lineages (above.map change) =
      (tree.lineages above).map (Prod.map change (List.map change))
  | .node value children => by
      rw [map, lineages, lineages, List.map_cons, ← lineagesAll_map]
      rfl

theorem lineagesAll_map (change : α → β) (above : List α) : (trees : List (Rose α)) →
    lineagesAll (above.map change) (mapAll change trees) =
      (lineagesAll above trees).map (Prod.map change (List.map change))
  | [] => rfl
  | tree :: rest => by
      rw [mapAll, lineagesAll, lineagesAll, List.map_append, lineages_map, lineagesAll_map]

end

mutual

/-- The lineage of a node is the way from its place up to the root. -/
theorem map_lineage_placesFrom (context : Context α) : (tree : Rose α) →
    (placesFrom context tree).map (fun place => (place.2.value, valuesAbove place.1)) =
      tree.lineages (valuesAbove context)
  | .node value children => by
      rw [placesFrom, List.map_cons, map_lineage_placesBelow, lineages]
      rfl

theorem map_lineage_placesBelow (value : α) (context : Context α) (before beyond : List (Rose α)) :
    (trees : List (Rose α)) →
    (placesBelow value context before beyond trees).map
        (fun place => (place.2.value, valuesAbove place.1)) =
      lineagesAll (value :: valuesAbove context) trees
  | [] => rfl
  | tree :: rest => by
      rw [placesBelow, List.map_append, map_lineage_placesFrom, map_lineage_placesBelow,
        lineagesAll]
      rfl

end

/-- A lineage is read off any place that the node has in the tree. -/
theorem lineage_mem_fill (context : Context α) (tree : Rose α) :
    (tree.value, valuesAbove context) ∈ (fill context tree).lineages [] := by
  have member : (context, tree) ∈ places (fill context tree) := mem_places.mpr rfl
  have lineage := List.mem_map_of_mem
    (f := fun place : Focus α => (place.2.value, valuesAbove place.1)) member
  rwa [places, map_lineage_placesFrom] at lineage

/-- A lineage belongs to a place. -/
theorem exists_place_of_lineage {tree : Rose α} {value : α} {above : List α}
    (member : (value, above) ∈ tree.lineages []) :
    ∃ context children, tree = fill context (.node value children) ∧
      valuesAbove context = above := by
  have lineages := map_lineage_placesFrom [] tree
  have listed : (value, above) ∈
      (places tree).map fun place => (place.2.value, valuesAbove place.1) := by
    rw [places, lineages]
    exact member
  rcases List.mem_map.mp listed with ⟨⟨context, ⟨root, children⟩⟩, place, same⟩
  rw [Prod.mk.injEq, value_node] at same
  refine ⟨context, children, ?_, same.2⟩
  rw [← same.1]
  exact (mem_places.mp place).symm

/-- In a tree without repetitions a value has one lineage. -/
theorem lineage_unique {tree : Rose α} (distinct : tree.preorder.Nodup) {value : α}
    {first second : List α} (member : (value, first) ∈ tree.lineages [])
    (alsoMember : (value, second) ∈ tree.lineages []) : first = second := by
  rw [← map_fst_lineages []] at distinct
  exact congrArg Prod.snd (List.inj_on_of_nodup_map distinct member alsoMember rfl)

/-! ## Keeping some of the values -/

/-- What remains of a lineage when some values are dropped and the others are changed. -/
def thin (keep : α → Option β) (lineage : α × List α) : Option (β × List β) :=
  (keep lineage.1).map fun value => (value, lineage.2.filterMap keep)

theorem map_fst_filterMap_thin (keep : α → Option β) (entries : List (α × List α)) :
    (entries.filterMap (thin keep)).map Prod.fst = (entries.map Prod.fst).filterMap keep := by
  rw [List.map_filterMap, List.filterMap_map]
  congr 1
  funext entry
  rw [thin, Option.map_map]
  exact Option.map_id'

/-- Values may be changed before some of them are dropped. -/
theorem filterMap_thin_map (change : α → β) (keep : β → Option γ) (tree : Rose α) :
    ((tree.map change).lineages []).filterMap (thin keep) =
      (tree.lineages []).filterMap (thin (keep ∘ change)) := by
  have changed := lineages_map change [] tree
  rw [List.map_nil] at changed
  rw [changed, List.filterMap_map]
  congr 1
  funext lineage
  rw [Function.comp_apply, thin, thin, Prod.map, List.filterMap_map]
  rfl

/-- A node of which nothing remains leaves its subtrees to those above it. -/
theorem filterMap_thin_of_dropped {keep : α → Option β} {value : α} (dropped : keep value = none)
    (above : List α) (children : List (Rose α)) :
    (lineages above (.node value children)).filterMap (thin keep) =
      (lineagesAll (value :: above) children).filterMap (thin keep) := by
  rw [lineages, List.filterMap_cons_none]
  rw [thin, dropped]
  rfl

theorem filterMap_thin_of_kept {keep : α → Option β} {value : α} {kept : β}
    (keeps : keep value = some kept) (above : List α) (children : List (Rose α)) :
    (lineages above (.node value children)).filterMap (thin keep) =
      (kept, above.filterMap keep) ::
        (lineagesAll (value :: above) children).filterMap (thin keep) := by
  rw [lineages, List.filterMap_cons_some]
  rw [thin, keeps]
  rfl

/-! ## Trees of the same form -/

mutual

/-- Two trees that agree in some respect are the two sides of a tree of pairs. -/
theorem exists_joint {read : α → γ} {readOther : β → γ} : (first : Rose α) → (second : Rose β) →
    first.map read = second.map readOther →
    ∃ joint : Rose (α × β), joint.map Prod.fst = first ∧ joint.map Prod.snd = second
  | .node value children, .node other others, same => by
      rw [map, map, node.injEq] at same
      rcases exists_jointAll children others same.2 with ⟨joints, firstEq, secondEq⟩
      refine ⟨.node (value, other) joints, ?_, ?_⟩
      · rw [map, firstEq]
      · rw [map, secondEq]

theorem exists_jointAll {read : α → γ} {readOther : β → γ} : (first : List (Rose α)) →
    (second : List (Rose β)) → mapAll read first = mapAll readOther second →
    ∃ joints : List (Rose (α × β)),
      mapAll Prod.fst joints = first ∧ mapAll Prod.snd joints = second
  | [], [], _ => ⟨[], rfl, rfl⟩
  | [], _ :: _, same => nomatch same
  | _ :: _, [], same => nomatch same
  | tree :: rest, other :: others, same => by
      rw [mapAll, mapAll, List.cons.injEq] at same
      rcases exists_joint tree other same.1 with ⟨joint, firstEq, secondEq⟩
      rcases exists_jointAll rest others same.2 with ⟨joints, firstRest, secondRest⟩
      refine ⟨joint :: joints, ?_, ?_⟩
      · rw [mapAll, firstEq, firstRest]
      · rw [mapAll, secondEq, secondRest]

end

/-- The pairs of such a tree agree. -/
theorem agree_of_map_eq {read : α → γ} {other : α → γ} {tree : Rose α}
    (same : tree.map read = tree.map other) :
    ∀ value ∈ tree.preorder, read value = other value := by
  have values := congrArg preorder same
  rw [preorder_map, preorder_map] at values
  exact List.map_inj_left.mp values

end Rose

end CallbackLint
