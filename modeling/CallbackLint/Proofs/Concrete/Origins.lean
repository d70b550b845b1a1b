import CallbackLint.Proofs.Concrete.Shape
import CallbackLint.Proofs.Rose.Lineage

namespace CallbackLint

open Rose

/-!
# Where syntax nodes come from

Lowering by recursion is repeated here with one thing more: each syntax node keeps the
concrete node that it comes from.  Only the block that gathers the statements of a `case`
comes from none.

A collapsed node is where no syntax node comes from.  When these are dropped from the
concrete tree, and the blocks without an origin from the syntax tree, the same lineages
remain.
-/

namespace Concrete

open Lowering

/-- A syntax node with the concrete node that it comes from. -/
abbrev Traced := Option Concrete × Label

/-- The label of the last node below a tree. -/
def lastLabel (tree : Tree) : Label := (tree.children.getLast?.map Rose.value).getD tree.value

/-- What a node becomes, from its visible children and from what they become. -/
def traceOver (source : List UInt8) (node : Concrete) (below : List (Concrete × Rose Traced)) :
    Rose Traced :=
  let own : Traced := (some node, (lowerDirectly source node).value)
  if node.isCollapsed then (below.map Prod.snd).headD (.node own [])
  else if node.isCase then
    let values := below.filter fun child => node.isInRole "value" child.1
    let statements := below.filter fun child => !node.isInRole "value" child.1
    .node own (values.map Prod.snd ++
      [.node (none, lastLabel (lowerDirectly source node)) (statements.map Prod.snd)])
  else .node own (below.map Prod.snd)

mutual

/-- What a node becomes, with the origins of all nodes. -/
def trace (source : List UInt8) : Concrete → Rose Traced
  | .node label children => traceOver source (.node label children) (traceAll source children)

def traceAll (source : List UInt8) : List Concrete → List (Concrete × Rose Traced)
  | [] => []
  | .node label children :: rest =>
    if label.isVisible then
      (.node label children, trace source (.node label children)) :: traceAll source rest
    else traceAll source rest

end

section Trace

variable (source : List UInt8) {node : Concrete}

theorem traceAll_eq (children : List Concrete) :
    traceAll source children =
      (children.filter fun child => child.value.isVisible).map fun child =>
        (child, trace source child) := by
  induction children with
  | nil => rfl
  | cons child rest inductionHypothesis =>
      rcases child with ⟨label, below⟩
      rw [traceAll, List.filter_cons, value_node, inductionHypothesis]
      cases label.isVisible <;> rfl

theorem trace_eq (node : Concrete) :
    trace source node =
      traceOver source node
        (node.visibleChildren.map fun child => (child, trace source child)) := by
  rcases node with ⟨label, children⟩
  rw [trace, traceAll_eq]
  rfl

/-- What is kept beside the children goes again. -/
theorem map_snd_trace_entries (nodes : List Concrete) :
    (nodes.map fun child => (child, trace source child)).map Prod.snd =
      nodes.map (trace source) := by
  rw [List.map_map]
  rfl

theorem filter_trace_entries (chosen : Concrete → Bool) (nodes : List Concrete) :
    ((nodes.map fun child => (child, trace source child)).filter fun child =>
        chosen child.1).map Prod.snd =
      (nodes.filter chosen).map (trace source) := by
  rw [List.filter_map, List.map_map]
  rfl

theorem trace_of_collapsed {inner : Concrete} (collapsed : node.isCollapsed = true)
    (single : node.visibleChildren = [inner]) : trace source node = trace source inner := by
  rw [trace_eq, single, traceOver, if_pos collapsed]
  rfl

theorem trace_of_plain (notCollapsed : node.isCollapsed = false) (noCase : node.isCase = false) :
    trace source node =
      .node (some node, (lowerDirectly source node).value)
        (node.visibleChildren.map (trace source)) := by
  rw [trace_eq, traceOver, if_neg (ne_true_of_eq_false notCollapsed),
    if_neg (ne_true_of_eq_false noCase), map_snd_trace_entries]

/-- A branch of a `switch` is no wrapper. -/
theorem not_collapsed_of_case (isCase : node.isCase = true) : node.isCollapsed = false := by
  rw [Bool.eq_false_iff]
  intro collapsed
  have other := kind_of_wrapper (exists_of_isCollapsed collapsed).1
  rw [kind_eq_switchCase_iff.mpr isCase] at other
  cases other

theorem trace_of_case (isCase : node.isCase = true) :
    trace source node =
      .node (some node, (lowerDirectly source node).value)
        ((node.visibleChildren.filter fun child => node.isInRole "value" child).map
            (trace source) ++
          [.node (none, lastLabel (lowerDirectly source node))
            ((node.visibleChildren.filter fun child => !node.isInRole "value" child).map
              (trace source))]) := by
  have values := filter_trace_entries source (fun child => node.isInRole "value" child)
    node.visibleChildren
  have statements := filter_trace_entries source (fun child => !node.isInRole "value" child)
    node.visibleChildren
  rw [trace_eq, traceOver, if_neg (ne_true_of_eq_false (not_collapsed_of_case isCase)),
    if_pos isCase, ← values, ← statements]

/-- Induction over the nodes that lowering visits, by what becomes of them. -/
theorem lowering_induct {motive : Concrete → Prop}
    (collapsed : ∀ node inner, node.isCollapsed = true → node.visibleChildren = [inner] →
      motive inner → motive node)
    (plain : ∀ node, node.isCollapsed = false → node.isCase = false →
      (∀ child ∈ node.visibleChildren, motive child) → motive node)
    (branch : ∀ node, node.isCase = true →
      (∀ child ∈ node.visibleChildren, motive child) → motive node)
    (node : Concrete) : motive node := by
  induction node using Rose.induct with
  | node label children inductionHypothesis =>
      have each : ∀ child ∈ visibleChildren (.node label children), motive child :=
        fun child member => inductionHypothesis child (List.mem_filter.mp member).1
      cases isCollapsed : isCollapsed (.node label children) with
      | true =>
          rcases (exists_of_isCollapsed isCollapsed).2 with ⟨inner, single⟩
          exact collapsed _ inner isCollapsed single (each inner (single ▸ List.mem_cons_self))
      | false =>
          cases isCase : Concrete.isCase (.node label children) with
          | true => exact branch _ isCase each
          | false => exact plain _ isCollapsed isCase each

/-- What a branch becomes, by the label of its last node. -/
theorem lowerDirectly_of_case_last (isCase : node.isCase = true) :
    (lastLabel (lowerDirectly source node)).kind = .block ∧
      ∃ own, lowerDirectly source node = .node own
        ((node.visibleChildren.filter fun child => node.isInRole "value" child).map
            (lowerDirectly source) ++
          [.node (lastLabel (lowerDirectly source node))
            ((node.visibleChildren.filter fun child => !node.isInRole "value" child).map
              (lowerDirectly source))]) := by
  rcases lowerDirectly_of_case source isCase with ⟨own, block, _, blockKind, shape⟩
  have last : lastLabel (lowerDirectly source node) = block := by
    rw [shape, lastLabel, children_node, List.getLast?_concat]
    rfl
  rw [last]
  exact ⟨blockKind, own, shape⟩

/-- Without the origins, the tree is that of lowering. -/
theorem map_snd_trace (node : Concrete) :
    (trace source node).map Prod.snd = lowerDirectly source node := by
  have among (nodes : List Concrete)
      (each : ∀ child ∈ nodes, (trace source child).map Prod.snd = lowerDirectly source child) :
      (nodes.map (trace source)).map (Rose.map Prod.snd) = nodes.map (lowerDirectly source) := by
    rw [List.map_map]
    exact List.map_congr_left each
  induction node using lowering_induct with
  | collapsed node inner collapsed single inside =>
      rw [trace_of_collapsed source collapsed single, inside,
        lowerDirectly_of_collapsed source collapsed single]
  | plain node notCollapsed noCase each =>
      rcases lowerDirectly_of_plain source notCollapsed noCase with ⟨own, _, shape⟩
      rw [trace_of_plain source notCollapsed noCase, map, mapAll_eq_map, among _ each, shape]
      rfl
  | branch node isCase each =>
      rcases (lowerDirectly_of_case_last source isCase).2 with ⟨own, shape⟩
      have label : (lowerDirectly source node).value = own := by
        rw [shape, value_node]
      rw [trace_of_case source isCase, map, mapAll_eq_map, List.map_append,
        List.map_singleton, map, mapAll_eq_map,
        among _ fun child member => each child (List.mem_of_mem_filter member),
        among _ fun child member => each child (List.mem_of_mem_filter member), label]
      exact shape.symm

/-- The tree of a node comes from what remains of the node. -/
theorem value_trace (node : Concrete) : (trace source node).value.1 = some node.strip := by
  induction node using lowering_induct with
  | collapsed node inner collapsed single inside =>
      rw [trace_of_collapsed source collapsed single, strip_of_collapsed collapsed single, inside]
  | plain node notCollapsed noCase each =>
      rw [trace_of_plain source notCollapsed noCase, strip_of_not_collapsed notCollapsed]
      rfl
  | branch node isCase each =>
      rw [trace_of_case source isCase, strip_of_not_collapsed (not_collapsed_of_case isCase)]
      rfl

/-! ## Labels and their origins -/

/-- What the origin of a syntax node tells about the node and the nodes right below it. -/
structure Traced.IsFaithful (entry : Traced) (below : List Traced) : Prop where
  label : ∀ node, entry.1 = some node →
    entry.2.kind = node.kind ∧ entry.2.position = node.value.position source
  /-- A branch of a `switch` has one block without an origin below it, behind the rest. -/
  branch : entry.2.kind = .switchCase → ∃ values block,
    below = values ++ [(none, block)] ∧ block.kind = .block ∧ ∀ child ∈ values, child.1 ≠ none
  /-- Elsewhere all nodes have origins. -/
  plain : entry.2.kind ≠ .switchCase → ∀ child ∈ below, child.1 ≠ none

theorem origin_ne_none_of_mem (nodes : List Concrete) :
    ∀ child ∈ (nodes.map (trace source)).map Rose.value, child.1 ≠ none := by
  intro child member
  rw [List.map_map] at member
  rcases List.mem_map.mp member with ⟨node, _, same⟩
  rw [← same, Function.comp_apply, value_trace]
  exact Option.some_ne_none _

/-- A node that is not collapsed gives its own kind and position. -/
theorem label_lowerDirectly (notCollapsed : node.isCollapsed = false) :
    (lowerDirectly source node).value.kind = node.kind ∧
      (lowerDirectly source node).value.position = node.value.position source := by
  have kindEq := kind_lowerDirectly source node
  rw [strip_of_not_collapsed notCollapsed] at kindEq
  exact ⟨kindEq, position_lowerDirectly source notCollapsed⟩

theorem faithful_trace (node : Concrete) :
    (trace source node).Everywhere (fun _ => Traced.IsFaithful source) none := by
  induction node using lowering_induct with
  | collapsed node inner collapsed single inside =>
      rw [trace_of_collapsed source collapsed single]
      exact inside
  | plain node notCollapsed noCase each =>
      have own := label_lowerDirectly source notCollapsed
      have noBranch : node.kind ≠ .switchCase := fun kindEq =>
        ne_true_of_eq_false noCase (kind_eq_switchCase_iff.mp kindEq)
      rw [trace_of_plain source notCollapsed noCase, everywhere_node_iff, List.forall_mem_map]
      refine ⟨?_, each⟩
      exact {
        label := fun origin same => Option.some.inj same ▸ own
        branch := fun isBranch => absurd (own.1.symm.trans isBranch) noBranch
        plain := fun _ => origin_ne_none_of_mem source _ }
  | branch node isCase each =>
      have own := label_lowerDirectly source (not_collapsed_of_case isCase)
      have isBranch : (lowerDirectly source node).value.kind = .switchCase :=
        own.1.trans (kind_eq_switchCase_iff.mpr isCase)
      have isBlock := (lowerDirectly_of_case_last source isCase).1
      rw [trace_of_case source isCase, everywhere_node_iff, List.map_append,
        List.map_singleton, value_node]
      refine ⟨?_, ?_⟩
      · exact {
          label := fun origin same => Option.some.inj same ▸ own
          branch := fun _ => ⟨_, _, rfl, isBlock, origin_ne_none_of_mem source _⟩
          plain := fun noBranch => absurd isBranch noBranch }
      · intro child member
        rcases List.mem_append.mp member with inValues | inBlock
        · rcases List.mem_map.mp inValues with ⟨value, among, rfl⟩
          exact each value (List.mem_of_mem_filter among)
        · rw [List.mem_singleton.mp inBlock, everywhere_node_iff, List.forall_mem_map]
          refine ⟨?_, fun statement among => each statement (List.mem_of_mem_filter among)⟩
          exact {
            label := nofun
            branch := fun isBranch => absurd (isBlock.symm.trans isBranch) (by decide)
            plain := fun _ => origin_ne_none_of_mem source _ }

/-! ## Lineages -/

/-- A node from which a syntax node comes. -/
def survivor? (node : Concrete) : Option Concrete := if node.isCollapsed then none else some node

theorem survivor?_eq_some_iff {node origin : Concrete} :
    node.survivor? = some origin ↔ node.isCollapsed = false ∧ node = origin := by
  rw [survivor?]
  cases node.isCollapsed with
  | true => exact ⟨nofun, fun both => nomatch both.1⟩
  | false => exact ⟨fun same => ⟨rfl, Option.some.inj same⟩, fun both => congrArg some both.2⟩

theorem reading_of_not_case (noCase : node.isCase = false) :
    node.reading = .node node (node.visibleChildren.map reading) := by
  rw [reading_eq, valueFirst, if_neg (ne_true_of_eq_false noCase)]

/-- A wrapper is no branch of a `switch`. -/
theorem not_case_of_collapsed (collapsed : node.isCollapsed = true) : node.isCase = false := by
  rw [Bool.eq_false_iff]
  intro isCase
  exact ne_true_of_eq_false (not_collapsed_of_case isCase) collapsed

/-- What is above the children of a node that is not collapsed. -/
theorem filterMap_cons_traced (notCollapsed : node.isCollapsed = false) (label : Label)
    {above : List Traced} {outer : List Concrete}
    (same : above.filterMap Prod.fst = outer.filterMap survivor?) :
    ((some node, label) :: above).filterMap Prod.fst = (node :: outer).filterMap survivor? := by
  have own : (some node, label).fst = some node := rfl
  rw [List.filterMap_cons_some own,
    List.filterMap_cons_some (survivor?_eq_some_iff.mpr ⟨notCollapsed, rfl⟩), same]

/-- The same lineages remain of the syntax tree and of the concrete tree. -/
def SameLineages (node : Concrete) : Prop :=
  ∀ (above : List Traced) (outer : List Concrete),
    above.filterMap Prod.fst = outer.filterMap survivor? →
    ((trace source node).lineages above).filterMap (thin Prod.fst) =
      (node.reading.lineages outer).filterMap (thin survivor?)

theorem filterMap_lineagesAll {nodes : List Concrete}
    (each : ∀ node ∈ nodes, SameLineages source node) {above : List Traced} {outer : List Concrete}
    (same : above.filterMap Prod.fst = outer.filterMap survivor?) :
    (lineagesAll above (nodes.map (trace source))).filterMap (thin Prod.fst) =
      (lineagesAll outer (nodes.map reading)).filterMap (thin survivor?) := by
  induction nodes with
  | nil => rfl
  | cons node rest inductionHypothesis =>
      rw [List.map_cons, List.map_cons, lineagesAll, lineagesAll, List.filterMap_append,
        List.filterMap_append, each node List.mem_cons_self above outer same,
        inductionHypothesis fun other member => each other (List.mem_cons_of_mem _ member)]

theorem sameLineages (node : Concrete) : SameLineages source node := by
  induction node using lowering_induct with
  | collapsed node inner collapsed single inside =>
      intro above outer same
      -- The wrapper is above what it wraps, but nothing remains of it there either.
      have dropped : node.survivor? = none := if_pos collapsed
      have skipped : above.filterMap Prod.fst = (node :: outer).filterMap survivor? := by
        rw [List.filterMap_cons_none dropped, same]
      rw [trace_of_collapsed source collapsed single, inside above (node :: outer) skipped,
        reading_of_not_case (not_case_of_collapsed collapsed), single,
        filterMap_thin_of_dropped dropped, List.map_singleton, lineagesAll, lineagesAll,
        List.append_nil]
  | plain node notCollapsed noCase each =>
      intro above outer same
      have kept := survivor?_eq_some_iff.mpr ⟨notCollapsed, rfl⟩
      have own : (some node, (lowerDirectly source node).value).fst = some node := rfl
      rw [trace_of_plain source notCollapsed noCase, reading_of_not_case noCase,
        filterMap_thin_of_kept own, filterMap_thin_of_kept kept, same,
        filterMap_lineagesAll source each (filterMap_cons_traced notCollapsed _ same)]
  | branch node isCase each =>
      intro above outer same
      have notCollapsed := not_collapsed_of_case isCase
      have kept := survivor?_eq_some_iff.mpr ⟨notCollapsed, rfl⟩
      have own : (some node, (lowerDirectly source node).value).fst = some node := rfl
      have block : (none, lastLabel (lowerDirectly source node)).fst =
          (none : Option Concrete) := rfl
      have inside := filterMap_cons_traced notCollapsed (lowerDirectly source node).value same
      -- The statements are below one node more, which has no origin.
      have inBlock : ((none, lastLabel (lowerDirectly source node)) ::
          (some node, (lowerDirectly source node).value) :: above).filterMap Prod.fst =
          (node :: outer).filterMap survivor? := by
        rw [List.filterMap_cons_none block, inside]
      rw [trace_of_case source isCase, reading_eq, valueFirst_of_case isCase,
        filterMap_thin_of_kept own, filterMap_thin_of_kept kept, same, lineagesAll_append,
        lineagesAll_append, List.filterMap_append, List.filterMap_append,
        filterMap_lineagesAll source
          (fun child member => each child (List.mem_of_mem_filter member)) inside,
        lineagesAll, lineagesAll, List.append_nil, filterMap_thin_of_dropped block,
        filterMap_lineagesAll source
          (fun child member => each child (List.mem_of_mem_filter member)) inBlock]

end Trace

end Concrete

end CallbackLint
