import CallbackLint.Proofs.Concrete.Ancestry
import CallbackLint.Proofs.Concrete.Assembly
import CallbackLint.Proofs.Concrete.Origins
import CallbackLint.Proofs.Concrete.WellFormed

namespace CallbackLint

open Rose

/-!
# Linked nodes and their origins

The linked nodes of a script have the form of its syntax tree, and so has the tree of their
origins.  An account is the tree of both: it has, for each linked node, the name in the
store beside the origin and the label from lowering.

What is known of the origins passes to the names in this way: their order, the nodes
above each other, and where a node has no origin.
-/

open Concrete

namespace Script

/-! ## Linked nodes beside their origins -/

/-- What a script becomes, with the origins of all nodes. -/
def trace (script : Script) : Rose Traced :=
  let lowered := Concrete.trace script.source script.root
  if script.root.strip.value.type = "program" then lowered
  else
    .node (none, { kind := .program, position := script.root.value.position script.source })
      [lowered]

/-- Names of linked nodes beside the origins and the labels of the nodes.  It goes through the nodes
of the store and the trace of the script at once, so each name has one origin at most. -/
structure IsAccount (script : Script) (store : Store) (account : Rose (Nat × Traced)) : Prop where
  records : store.Records (account.map fun entry => (entry.1, entry.2.2))
  traced : account.map Prod.snd = script.trace

section Trace

variable (script : Script)

theorem map_snd_trace_script (distinct : script.root.Distinct) :
    script.trace.map Prod.snd = script.syntaxTree := by
  have isProgram := kind_lowerDirectly script.source script.root
  rw [syntaxTree, Lowering.lower?_eq script.source distinct, Option.getD_some,
    Lowering.wrapProgram, trace]
  by_cases program : script.root.strip.value.type = "program"
  · rw [kind_eq_program_iff.mpr program] at isProgram
    rw [if_pos program, isProgram, map_snd_trace]
  · rw [if_neg program, map, mapAll, mapAll, map_snd_trace]
    split
    · rename_i same
      exact absurd (kind_eq_program_iff.mp (isProgram.symm.trans same)) program
    · rfl

theorem faithful_trace_script :
    script.trace.Everywhere (fun _ => Traced.IsFaithful script.source) none := by
  rw [trace]
  split
  · exact faithful_trace script.source script.root
  · rw [everywhere_node_iff, List.map_singleton]
    refine ⟨?_, fun child member => ?_⟩
    · have named := origin_ne_none_of_mem script.source [script.root]
      exact { label := nofun, branch := nofun, plain := fun _ => named }
    · rw [List.mem_singleton.mp member]
      exact faithful_trace script.source script.root

/-- The lineages of the origins are those of the nodes that are not collapsed. -/
theorem lineages_trace_script :
    (script.trace.lineages []).filterMap (thin Prod.fst) =
      (script.root.reading.lineages []).filterMap (thin survivor?) := by
  have same := sameLineages script.source script.root
  rw [trace]
  split
  · exact same [] [] rfl
  · rw [filterMap_thin_of_dropped rfl, lineagesAll, lineagesAll, List.append_nil]
    exact same _ [] rfl

/-- A program is put on top where there is none. -/
theorem value_trace_script :
    script.trace.value.1 = none ↔ script.root.strip.value.type ≠ "program" := by
  rw [trace]
  split
  · rename_i program
    rw [value_trace]
    exact ⟨nofun, fun noProgram => absurd program noProgram⟩
  · rename_i noProgram
    exact ⟨fun _ => noProgram, fun _ => rfl⟩

/-- The linked nodes of a script have an account. -/
theorem exists_account (distinct : script.root.Distinct) :
    ∃ account, script.IsAccount script.assembled.1 account ∧
      account.value.1 = script.assembled.2 := by
  rcases script.exists_shape with ⟨shape, records, rootEq, treeEq⟩
  have sameForm : shape.map Prod.snd = script.trace.map Prod.snd :=
    treeEq.trans (script.map_snd_trace_script distinct).symm
  rcases exists_joint shape script.trace sameForm with ⟨joint, shapeEq, traceEq⟩
  have labels : ∀ pair ∈ joint.preorder,
      (Prod.snd ∘ Prod.fst) pair = (Prod.snd ∘ Prod.snd) pair := by
    apply agree_of_map_eq
    rw [← map_map, ← map_map, shapeEq, traceEq, sameForm]
  have names : (joint.map fun pair => (pair.1.1, pair.2)).map
      (fun entry : Nat × Traced => (entry.1, entry.2.2)) = shape := by
    rw [map_map, ← shapeEq]
    apply map_congr_preorder
    intro pair member
    exact Prod.ext rfl (labels pair member).symm
  refine ⟨joint.map fun pair => (pair.1.1, pair.2), ⟨?_, ?_⟩, ?_⟩
  · rw [names]
    exact records
  · rw [map_map, ← traceEq]
    rfl
  · rw [← rootEq, ← shapeEq, value_map, value_map]

end Trace

/-! ## Reading the account -/

def originOf (entry : Nat × Traced) : Option Concrete := entry.2.1

def originIn (account : Rose (Nat × Traced)) (name : Nat) : Option Concrete :=
  (account.preorder.find? fun entry => entry.1 == name).bind originOf

namespace IsAccount

variable {script : Script} {store : Store} {account : Rose (Nat × Traced)}

theorem holds (isAccount : script.IsAccount store account) :
    store.Holds (account.map Prod.fst) := by
  have named := isAccount.records.holds
  rwa [map_map] at named

theorem nodup_names (isAccount : script.IsAccount store account) :
    (account.preorder.map Prod.fst).Nodup := by
  rw [← preorder_map]
  exact isAccount.holds.distinct

theorem eq_of_name_eq (isAccount : script.IsAccount store account) {first second : Nat × Traced}
    (member : first ∈ account.preorder) (alsoMember : second ∈ account.preorder)
    (same : first.1 = second.1) : first = second :=
  List.inj_on_of_nodup_map isAccount.nodup_names member alsoMember same

theorem originIn_eq (isAccount : script.IsAccount store account) {entry : Nat × Traced}
    (member : entry ∈ account.preorder) : originIn account entry.1 = originOf entry := by
  cases found : account.preorder.find? fun other => other.1 == entry.1 with
  | none => exact absurd (beq_self_eq_true entry.1) (List.find?_eq_none.mp found entry member)
  | some other =>
      have named := List.find?_some found
      have listed := List.mem_of_find?_eq_some found
      rw [originIn, found, Option.bind_some,
        isAccount.eq_of_name_eq listed member (beq_iff_eq.mp named)]

/-- The nodes that are reached from the root are those of the account. -/
theorem below_iff (isAccount : script.IsAccount store account) {name : Nat} :
    store.Below account.value.1 name ↔ ∃ entry ∈ account.preorder, entry.1 = name := by
  rw [← value_map Prod.fst, isAccount.holds.below_iff, preorder_map, List.mem_map]

theorem below_of_mem (isAccount : script.IsAccount store account) {entry : Nat × Traced}
    (member : entry ∈ account.preorder) : store.Below account.value.1 entry.1 :=
  isAccount.below_iff.mpr ⟨entry, member, rfl⟩

/-! ## The order of the origins -/

theorem lineages_eq (isAccount : script.IsAccount store account) :
    (account.lineages []).filterMap (thin originOf) =
      (script.root.reading.lineages []).filterMap (thin survivor?) := by
  rw [← script.lineages_trace_script, ← isAccount.traced, filterMap_thin_map]
  rfl

/-- In the order of the tree, the origins are the nodes that are not collapsed. -/
theorem filterMap_origin (isAccount : script.IsAccount store account) :
    account.preorder.filterMap originOf =
      script.root.reading.preorder.filter fun node => !node.isCollapsed := by
  have origins := congrArg (List.map Prod.fst) isAccount.lineages_eq
  rw [map_fst_filterMap_thin, map_fst_filterMap_thin, map_fst_lineages, map_fst_lineages] at origins
  rw [origins, ← List.filterMap_eq_filter]
  congr 1
  funext node
  rw [survivor?, Option.guard]
  cases node.isCollapsed <;> rfl

theorem mem_origins_iff (isAccount : script.IsAccount store account) {node : Concrete} :
    (∃ entry ∈ account.preorder, originOf entry = some node) ↔
      node ∈ script.root.visible.preorder ∧ node.isCollapsed = false := by
  rw [← List.mem_filterMap, isAccount.filterMap_origin, List.mem_filter, mem_preorder_reading,
    Bool.not_eq_true']

/-- With different identities, no two syntax nodes have the same origin. -/
theorem eq_of_origin_eq (isAccount : script.IsAccount store account)
    (distinct : script.root.Distinct) {first second : Nat × Traced} {node : Concrete}
    (member : first ∈ account.preorder) (alsoMember : second ∈ account.preorder)
    (origin : originOf first = some node) (sameOrigin : originOf second = some node) :
    first = second := by
  have once : (account.preorder.filterMap originOf).Nodup := by
    rw [isAccount.filterMap_origin]
    exact distinct.nodup_reading.filter _
  rcases List.append_of_mem member with ⟨before, after, split⟩
  rw [split] at alsoMember once
  rw [List.filterMap_append, List.filterMap_cons_some origin, List.nodup_append,
    List.nodup_cons] at once
  rcases List.mem_append.mp alsoMember with early | late
  · have listed := List.mem_filterMap.mpr ⟨second, early, sameOrigin⟩
    exact absurd rfl (once.2.2 node listed node List.mem_cons_self)
  · rcases List.mem_cons.mp late with same | later
    · exact same.symm
    · exact absurd (List.mem_filterMap.mpr ⟨second, later, sameOrigin⟩) once.2.1.1

/-! ## One node of the account -/

section Place

variable {context : Context (Nat × Traced)} {entry : Nat × Traced}
  {below : List (Rose (Nat × Traced))}

theorem records_place (isAccount : script.IsAccount store (fill context (.node entry below))) :
    store.Records (fill (mapContext (fun entry => (entry.1, entry.2.2)) context)
      (.node (entry.1, entry.2.2) (below.map (Rose.map fun entry => (entry.1, entry.2.2))))) := by
  have records := isAccount.records
  rwa [map_fill, map, mapAll_eq_map] at records

theorem faithful_place (isAccount : script.IsAccount store (fill context (.node entry below))) :
    Traced.IsFaithful script.source entry.2 ((below.map Rose.value).map Prod.snd) := by
  have faithful := script.faithful_trace_script
  rw [← isAccount.traced, map_fill, map, mapAll_eq_map] at faithful
  have here := (everywhere_fill faithful).1
  rw [List.map_map] at here ⊢
  have values : ∀ child ∈ below, (Rose.value ∘ Rose.map Prod.snd) child =
      (Prod.snd ∘ Rose.value) child := fun child _ => value_map Prod.snd child
  rwa [List.map_congr_left values] at here

theorem kind?_place (isAccount : script.IsAccount store (fill context (.node entry below))) :
    store.kind? entry.1 = some entry.2.2.kind := isAccount.records_place.kind?_place

theorem childrenOf_place (isAccount : script.IsAccount store (fill context (.node entry below))) :
    store.childrenOf entry.1 = (below.map Rose.value).map Prod.fst := by
  rw [isAccount.records_place.childrenOf_place, List.map_map, List.map_map, List.map_map]
  apply List.map_congr_left
  intro child _
  rw [Function.comp_apply, Function.comp_apply, value_map]
  rfl

theorem ancestors_place (isAccount : script.IsAccount store (fill context (.node entry below))) :
    store.ancestors entry.1 = (valuesAbove context).map Prod.fst := by
  have holds := isAccount.holds
  rw [map_fill, map] at holds
  have above := holds.ancestors_eq
  rw [value_node] at above
  rw [above, valuesAbove, mapContext, valuesAbove, List.map_map, List.map_map]
  rfl

end Place

/-- A node has its place in the account. -/
theorem exists_place (isAccount : script.IsAccount store account) {name : Nat}
    (reached : store.Below account.value.1 name) :
    ∃ context entry below, entry.1 = name ∧ entry ∈ account.preorder ∧
      account = fill context (.node entry below) := by
  rcases isAccount.below_iff.mp reached with ⟨entry, member, same⟩
  rcases exists_place_of_mem member with ⟨context, below, place⟩
  exact ⟨context, entry, below, same, member, place⟩

theorem kind?_of_mem (isAccount : script.IsAccount store account) {entry : Nat × Traced}
    (member : entry ∈ account.preorder) : store.kind? entry.1 = some entry.2.2.kind := by
  rcases exists_place_of_mem member with ⟨context, below, place⟩
  rw [place] at isAccount
  exact isAccount.kind?_place

/-! ## Nodes above each other -/

/-- The way up from a linked node leads past the origins of the nodes on it. -/
theorem exists_lineage (isAccount : script.IsAccount store account)
    {context : Context (Nat × Traced)} {lower : Nat × Traced}
    {children : List (Rose (Nat × Traced))} (place : account = fill context (.node lower children))
    {node : Concrete} (origin : originOf lower = some node) :
    ∃ nodesAbove, (node, nodesAbove) ∈ script.root.reading.lineages [] ∧
      (valuesAbove context).filterMap originOf = nodesAbove.filterMap survivor? := by
  have lineage := lineage_mem_fill context (.node lower children)
  rw [← place, value_node] at lineage
  have thinned : (node, (valuesAbove context).filterMap originOf) ∈
      (script.root.reading.lineages []).filterMap (thin survivor?) := by
    rw [← isAccount.lineages_eq]
    refine List.mem_filterMap.mpr ⟨_, lineage, ?_⟩
    rw [thin, origin]
    rfl
  rcases List.mem_filterMap.mp thinned with ⟨⟨read, nodesAbove⟩, member, same⟩
  rcases Option.map_eq_some_iff.mp same with ⟨kept, survives, rest⟩
  rw [Prod.mk.injEq] at rest
  rw [rest.1, survivor?_eq_some_iff] at survives
  have readEq : read = node := survives.2
  exact ⟨nodesAbove, readEq ▸ member, rest.2.symm⟩

/-- The nodes above a linked node come from the nodes above its origin. -/
theorem mem_ancestors_iff (isAccount : script.IsAccount store account)
    (distinct : script.root.Distinct) {upper lower : Nat × Traced} {above below : Concrete}
    (upperMember : upper ∈ account.preorder) (lowerMember : lower ∈ account.preorder)
    (upperOrigin : originOf upper = some above) (lowerOrigin : originOf lower = some below) :
    upper.1 ∈ store.ancestors lower.1 ↔ above.IsAbove below := by
  rcases exists_place_of_mem lowerMember with ⟨context, children, place⟩
  rcases isAccount.exists_lineage place lowerOrigin with ⟨nodesAbove, read, origins⟩
  rcases isAccount.mem_origins_iff.mp ⟨upper, upperMember, upperOrigin⟩ with ⟨visited, survives⟩
  have within : valuesAbove context ⊆ account.preorder := by
    have way := way_subset_preorder context (.node lower children)
    rw [← place] at way
    exact fun entry member => way (List.mem_cons_of_mem _ member)
  have ancestors := (place ▸ isAccount).ancestors_place
  have survivors : above ∈ nodesAbove.filterMap survivor? ↔ above ∈ nodesAbove := by
    rw [List.mem_filterMap]
    constructor
    · rintro ⟨other, member, survives⟩
      exact (survivor?_eq_some_iff.mp survives).2 ▸ member
    · intro member
      exact ⟨above, member, survivor?_eq_some_iff.mpr ⟨survives, rfl⟩⟩
  -- Among the nodes on the way up, names and origins both tell the nodes apart.
  rw [← mem_lineage_iff distinct (mem_preorder_reading.mpr visited) read, ancestors, ← survivors,
    ← origins, List.mem_filterMap, List.mem_map]
  constructor
  · rintro ⟨entry, member, same⟩
    have entryEq := isAccount.eq_of_name_eq (within member) upperMember same
    exact ⟨entry, member, entryEq ▸ upperOrigin⟩
  · rintro ⟨entry, member, origin⟩
    have entryEq :=
      isAccount.eq_of_origin_eq distinct (within member) upperMember origin upperOrigin
    exact ⟨entry, member, entryEq ▸ rfl⟩

/-! ## Nodes without an origin -/

/-- A branch of a `switch` has one node without an origin right below it, the block at the
end. -/
theorem exists_block (isAccount : script.IsAccount store account) {branch : Nat}
    (reached : store.Below account.value.1 branch)
    (isBranch : store.kind? branch = some .switchCase) :
    ∃ earlier block, store.childrenOf branch = earlier ++ [block] ∧
      store.kind? block = some .block ∧ originIn account block = none ∧
      ∀ child ∈ earlier, originIn account child ≠ none := by
  rcases isAccount.exists_place reached with ⟨context, entry, below, rfl, _, place⟩
  have here := place ▸ isAccount
  rw [here.kind?_place, Option.some.injEq] at isBranch
  rcases here.faithful_place.branch isBranch with ⟨values, label, split, isBlock, named⟩
  rcases List.map_eq_append_iff.mp split with ⟨earlier, rest, parts, valuesEq, restEq⟩
  rcases List.map_eq_singleton_iff.mp restEq with ⟨block, rfl, blockEq⟩
  have inside : ∀ child ∈ earlier ++ [block], child ∈ account.preorder := by
    intro child member
    rw [← parts] at member
    rw [place, preorder_fill, preorder]
    exact List.mem_append_left _ (List.mem_append_right _ (List.mem_cons_of_mem _
      ((map_value_sublist_preorderAll below).subset member)))
  have blockMember := inside block (List.mem_append_right _ List.mem_cons_self)
  refine ⟨earlier.map Prod.fst, block.1, ?_, ?_, ?_, ?_⟩
  · rw [here.childrenOf_place, parts, List.map_append, List.map_singleton]
  · rw [isAccount.kind?_of_mem blockMember, blockEq, isBlock]
  · rw [isAccount.originIn_eq blockMember, originOf, blockEq]
  · intro child member
    rcases List.mem_map.mp member with ⟨value, listed, rfl⟩
    rw [isAccount.originIn_eq (inside value (List.mem_append_left _ listed))]
    exact named value.2 (valuesEq ▸ List.mem_map_of_mem listed)

/-- The root has no origin if it is a program that is put on top. -/
theorem originOf_value (isAccount : script.IsAccount store account) :
    originOf account.value = none ↔ script.root.strip.value.type ≠ "program" := by
  rw [← script.value_trace_script, ← isAccount.traced, value_map, originOf]

/-- Apart from the root, a node without an origin is the block of a branch. -/
theorem originOf_eq_none_iff (isAccount : script.IsAccount store account) {entry : Nat × Traced}
    (member : entry ∈ account.preorder) :
    originOf entry = none ↔
      (∃ branch, store.Below account.value.1 branch ∧ store.kind? branch = some .switchCase ∧
        (store.childrenOf branch).getLast? = some entry.1) ∨
      entry.1 = account.value.1 ∧ script.root.strip.value.type ≠ "program" := by
  constructor
  · intro noOrigin
    rcases exists_place_of_mem member with ⟨context, below, place⟩
    cases context with
    | nil =>
        have isRoot : account.value = entry := by
          rw [place]
          rfl
        rw [← isRoot] at noOrigin
        exact Or.inr ⟨congrArg Prod.fst isRoot.symm, isAccount.originOf_value.mp noOrigin⟩
    | cons crumb context =>
        rw [fill, Crumb.fill] at place
        have parentMember : crumb.value ∈ account.preorder := by
          rw [place]
          exact way_subset_preorder context _ List.mem_cons_self
        have here := place ▸ isAccount
        have listed : entry ∈ (crumb.before ++ .node entry below :: crumb.after).map Rose.value :=
          List.mem_map_of_mem (List.mem_append_right _ List.mem_cons_self)
        have isBranch : crumb.value.2.2.kind = .switchCase := by
          by_contra noBranch
          exact here.faithful_place.plain noBranch entry.2 (List.mem_map_of_mem listed) noOrigin
        have reached := isAccount.below_of_mem parentMember
        have kindEq : store.kind? crumb.value.1 = some .switchCase := by
          rw [isAccount.kind?_of_mem parentMember, isBranch]
        rcases isAccount.exists_block reached kindEq with ⟨earlier, block, children, _, _, named⟩
        have child : entry.1 ∈ earlier ++ [block] := by
          rw [← children, here.childrenOf_place]
          exact List.mem_map_of_mem listed
        refine Or.inl ⟨crumb.value.1, reached, kindEq, ?_⟩
        rcases List.mem_append.mp child with early | last
        · exact absurd ((isAccount.originIn_eq member).trans noOrigin) (named entry.1 early)
        · rw [children, List.getLast?_concat, List.mem_singleton.mp last]
  · rintro (⟨branch, reached, isBranch, last⟩ | ⟨isRoot, noProgram⟩)
    · rcases isAccount.exists_block reached isBranch with ⟨earlier, block, children, _, none, _⟩
      rw [children, List.getLast?_concat, Option.some.injEq] at last
      rw [← isAccount.originIn_eq member, ← last, none]
    · rw [isAccount.eq_of_name_eq member (value_mem_preorder account) isRoot]
      exact isAccount.originOf_value.mpr noProgram

end IsAccount

end Script

end CallbackLint
