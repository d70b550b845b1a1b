import CallbackLint.Proofs.Syntax.Layout

namespace CallbackLint

open Rose

/-!
# Well-formed syntax trees

What a node says about itself has to fit what is around it: only a call has a
callee, only a function has a body, which is one of its children, and the last
child of a branch is a block.  For a plain tree this is a property of labels.  For
linked nodes it is read off the links, together with what the links themselves owe
to each other: apart from the root, each node that is reached stands once in one
list of children, that of the parent that it names.
-/

/-! ## Labels -/

/-- What a node says about itself fits the nodes right below it. -/
structure Label.Fits (label : Label) (below : List Label) : Prop where
  callee : label.callee ≠ none → label.kind = .call
  body : ∀ index, label.body = some index → label.kind = .function ∧ index < below.length
  block : label.kind = .switchCase → ∃ last, below.getLast? = some last ∧ last.kind = .block

/-- All labels of a tree fit. -/
def Tree.IsFit (tree : Tree) : Prop := tree.Everywhere (fun _ => Label.Fits) none

theorem Tree.isFit_node_iff {label : Label} {children : List Tree} :
    Tree.IsFit (.node label children) ↔
      label.Fits (children.map Rose.value) ∧ ∀ child ∈ children, child.IsFit :=
  everywhere_node_iff

/-- Where all labels fit, the label of a place does. -/
theorem Tree.IsFit.place {context : Context (Nat × Label)} {node : Nat × Label}
    {below : List (Rose (Nat × Label))}
    (fit : Tree.IsFit ((fill context (.node node below)).map Prod.snd)) :
    node.2.Fits (below.map fun child => child.value.2) := by
  rw [Tree.IsFit, map_fill] at fit
  have here := (everywhere_fill fit).1
  have labels : (mapAll Prod.snd below).map Rose.value = below.map fun child => child.value.2 := by
    rw [mapAll_eq_map, List.map_map]
    exact List.map_congr_left fun child _ => value_map Prod.snd child
  rw [labels] at here
  exact here

namespace Store

/-- An element at a place splits a list there. -/
theorem exists_split_of_lt {α : Type} {items : List α} {index : Nat}
    (inside : index < items.length) :
    ∃ left item right, items = left ++ item :: right ∧ left.length = index := by
  refine ⟨items.take index, items[index], items.drop (index + 1), ?_, ?_⟩
  · rw [← List.drop_eq_getElem_cons inside, List.take_append_drop]
  · exact List.length_take_of_le (Nat.le_of_lt inside)

/-! ## Linked nodes -/

def calleeOf? (store : Store) (name : Nat) : Option String :=
  (store.node? name).bind Node.callee

/-- A chain of children leads from `upper` down to `lower`. -/
def Below (store : Store) (upper lower : Nat) : Prop :=
  Relation.ReflTransGen (fun upper lower => lower ∈ store.childrenOf upper) upper lower

/-- The nodes below a root make up a well-formed syntax tree.  Whatever a parser made of a script,
the rule can rely on this. -/
structure WellFormed (store : Store) (root : Nat) : Prop where
  program : store.kind? root = some .program
  top : store.parentOf? root = none
  unlisted : ∀ owner, store.Below root owner → root ∉ store.childrenOf owner
  /-- Apart from the root, each node stands once in the list of its parent and in no
  other list. -/
  owned : ∀ name, store.Below root name → name ≠ root →
    ∃ parent, store.parentOf? name = some parent ∧ store.Below root parent ∧
      (store.childrenOf parent).count name = 1 ∧
      ∀ owner, store.Below root owner → name ∈ store.childrenOf owner → owner = parent
  callee : ∀ name, store.Below root name → store.calleeOf? name ≠ none →
    store.kind? name = some .call
  body : ∀ name body, store.Below root name → store.bodyOf? name = some body →
    store.kind? name = some .function ∧ body ∈ store.childrenOf name
  block : ∀ name, store.Below root name → store.kind? name = some .switchCase →
    ∃ last, (store.childrenOf name).getLast? = some last ∧ store.kind? last = some .block

/-- What a node says about itself, with the body as a place among the children. -/
def labelOf? (store : Store) (name : Nat) : Option Label :=
  (store.node? name).map fun node =>
    { kind := node.kind, position := node.position, callee := node.callee
      body := node.body.bind fun body => node.children.idxOf? body }

/-- The nodes below a name spell a tree. -/
def Spells (store : Store) (name : Nat) (tree : Tree) : Prop :=
  (store.outline name).map store.labelOf? = tree.map some

theorem Spells.unique {store : Store} {name : Nat} {tree other : Tree}
    (spells : store.Spells name tree) (others : store.Spells name other) : tree = other := by
  have same : tree.map some = other.map some := spells.symm.trans others
  have plain := congrArg (Rose.map fun label => label.getD tree.value) same
  rw [Rose.map_map, Rose.map_map] at plain
  exact (Rose.map_id tree).symm.trans (plain.trans (Rose.map_id other))

/-! ## What is reached from the root -/

namespace Holds

variable {store : Store} {tree : Rose Nat} {name owner : Nat}

theorem below_fill {context : Context Nat} (holds : store.Holds (fill context tree)) :
    store.Below (fill context tree).value tree.value := by
  induction context generalizing tree with
  | nil => exact Relation.ReflTransGen.refl
  | cons crumb context inductionHypothesis =>
      have outside : store.Holds (fill context (crumb.fill tree)) := holds
      have child : tree.value ∈ store.childrenOf crumb.value := by
        rw [holds.childrenOf_crumb]
        exact List.mem_append_right _ List.mem_cons_self
      exact (inductionHypothesis outside).tail child

/-- The nodes of the tree are those that are reached from the root. -/
theorem below_iff (holds : store.Holds tree) :
    store.Below tree.value name ↔ name ∈ tree.preorder := by
  constructor
  · intro chain
    induction chain with
    | refl => exact value_mem_preorder tree
    | tail _ child inductionHypothesis => exact holds.child_mem inductionHypothesis child
  · intro member
    rcases exists_place_of_mem member with ⟨context, below, place⟩
    rw [place] at holds ⊢
    exact holds.below_fill

theorem outline_fill {context : Context Nat} (holds : store.Holds (fill context tree)) :
    store.outline tree.value = tree := by
  have total := congrArg List.length (preorder_fill context tree)
  have room := holds.size_le
  rw [length_preorder, List.length_append, List.length_append, length_preorder] at total
  exact holds.unfold_eq (by omega)

/-- Apart from the root, each node stands once in one list of children. -/
theorem exists_owner (holds : store.Holds tree) (member : name ∈ tree.preorder)
    (notRoot : name ≠ tree.value) :
    ∃ parent, store.parentOf? name = some parent ∧ store.Below tree.value parent ∧
      (store.childrenOf parent).count name = 1 ∧
      ∀ owner, store.Below tree.value owner → name ∈ store.childrenOf owner → owner = parent := by
  rcases exists_place_of_mem member with ⟨context, below, place⟩
  cases context with
  | nil =>
      rw [place] at notRoot
      exact False.elim (notRoot rfl)
  | cons crumb context =>
      have there := holds
      rw [place] at there
      have link : store.parentOf? name = some crumb.value := there.parentOf?_eq
      have listed : name ∈ store.childrenOf crumb.value := by
        rw [there.childrenOf_crumb]
        exact List.mem_append_right _ List.mem_cons_self
      have outside : store.Holds
        (fill context (.node crumb.value (crumb.before ++ .node name below :: crumb.after))) := there
      refine ⟨crumb.value, link, holds.below_iff.mpr (holds.parent_mem member link), ?_, ?_⟩
      · apply List.count_eq_one_of_mem _ listed
        rw [outside.childrenOf_eq]
        exact outside.distinct_children
      · intro owner reached child
        have other := holds.parentOf?_of_child (holds.below_iff.mp reached) child
        exact Option.some.inj (other.symm.trans link)

theorem not_mem_childrenOf_of_root (holds : store.Holds tree)
    (reached : store.Below tree.value owner) : tree.value ∉ store.childrenOf owner := by
  intro child
  have link := holds.parentOf?_of_child (holds.below_iff.mp reached) child
  have top : store.parentOf? tree.value = none := @parentOf?_value store [] tree holds
  rw [top] at link
  cases link

end Holds

namespace Records

variable {store : Store} {shape : Rose (Nat × Label)} {context : Context (Nat × Label)}
  {node : Nat × Label} {below : List (Rose (Nat × Label))}

/-- A node that is reached from the root has a place in the tree. -/
theorem exists_place (records : store.Records shape) {name : Nat}
    (reached : store.Below shape.value.1 name) :
    ∃ context label below, shape = fill context (.node (name, label) below) := by
  rw [← value_map Prod.fst, records.holds.below_iff, preorder_map] at reached
  rcases List.mem_map.mp reached with ⟨node, member, same⟩
  rcases exists_place_of_mem member with ⟨context, below, place⟩
  rw [← same]
  exact ⟨context, node.2, below, place⟩

theorem childrenOf_place (records : store.Records (fill context (.node node below))) :
    store.childrenOf node.1 = (below.map Rose.value).map Prod.fst := by
  rw [childrenOf, records.node?_eq]
  rfl

theorem kind?_place (records : store.Records (fill context (.node node below))) :
    store.kind? node.1 = some node.2.kind := by
  rw [kind?, records.node?_eq]
  rfl

theorem kind?_child (records : store.Records (fill context (.node node below)))
    {child : Rose (Nat × Label)} (member : child ∈ below) :
    store.kind? child.value.1 = some child.value.2.kind := by
  rcases List.append_of_mem member with ⟨before, after, split⟩
  rcases child with ⟨inner, values⟩
  rw [split] at records
  exact @kind?_place store ({ value := node, before, after } :: context) inner values records

/-- A store that records a program whose labels fit is a well-formed syntax tree. -/
theorem wellFormed (records : store.Records shape) (fit : Tree.IsFit (shape.map Prod.snd))
    (program : shape.value.2.kind = .program) : store.WellFormed shape.value.1 := by
  have holds := records.holds
  have root : (shape.map Prod.fst).value = shape.value.1 := value_map Prod.fst shape
  have reachedIff : ∀ name, store.Below shape.value.1 name ↔
      name ∈ (shape.map Prod.fst).preorder := fun name => root ▸ holds.below_iff
  constructor
  · rcases shape with ⟨node, children⟩
    rw [value_node] at program
    have top := @kind?_place store [] node children records
    rw [program] at top
    exact top
  · rw [← root]
    exact @Holds.parentOf?_value store [] _ holds
  · intro owner reached
    rw [← root] at reached ⊢
    exact holds.not_mem_childrenOf_of_root reached
  · intro name reached notRoot
    rw [← root] at notRoot ⊢
    exact holds.exists_owner ((reachedIff name).mp reached) notRoot
  · intro name reached named
    rcases records.exists_place reached with ⟨context, label, below, place⟩
    rw [place] at records fit
    have found : store.calleeOf? name = label.callee := by
      rw [calleeOf?, records.node?_eq]
      rfl
    rw [found] at named
    have isCall : label.kind = .call := fit.place.callee named
    rw [records.kind?_place, isCall]
  · intro name body reached named
    rcases records.exists_place reached with ⟨context, label, below, place⟩
    rw [place] at records fit
    rw [bodyOf?, records.node?_eq, Option.bind_some, entry, Option.bind_eq_some_iff] at named
    rcases named with ⟨index, bodyEq, listed⟩
    have isFunction : label.kind = .function := (fit.place.body index bodyEq).1
    rw [records.kind?_place, isFunction, records.childrenOf_place]
    exact ⟨rfl, List.mem_of_getElem? listed⟩
  · intro name reached isCase
    rcases records.exists_place reached with ⟨context, label, below, place⟩
    rw [place] at records fit
    rw [records.kind?_place, Option.some.injEq] at isCase
    rcases fit.place.block isCase with ⟨last, atEnd, isBlock⟩
    rw [List.getLast?_map, Option.map_eq_some_iff] at atEnd
    rcases atEnd with ⟨child, atEnd, labelEq⟩
    refine ⟨child.value.1, ?_, ?_⟩
    · rw [records.childrenOf_place, List.getLast?_map, List.getLast?_map, atEnd]
      rfl
    · rw [records.kind?_child (List.mem_of_getLast? atEnd), labelEq, isBlock]

/-! ## What a store spells -/

theorem distinct_children_place
    (records : store.Records (fill context (.node node below))) :
    ((below.map Rose.value).map Prod.fst).Nodup := by
  have holds := records.holds
  rw [map_fill, map] at holds
  rw [← records.childrenOf_place, holds.childrenOf_eq]
  exact holds.distinct_children

/-- The label of a place can be read off the store. -/
theorem labelOf?_place (records : store.Records (fill context (.node node below)))
    (fits : node.2.Fits (below.map fun child => child.value.2)) :
    store.labelOf? node.1 = some node.2 := by
  have distinct := records.distinct_children_place
  rw [labelOf?, records.node?_eq, Option.map_some, entry]
  rcases node with ⟨name, kind, position, callee, body⟩
  cases body with
  | none => rfl
  | some index =>
      have inside := (fits.body index rfl).2
      rw [List.length_map] at inside
      rcases exists_split_of_lt inside with ⟨left, child, right, split, same⟩
      rw [split, List.map_append, List.map_append, List.map_cons, List.map_cons] at distinct ⊢
      have absent : child.value.1 ∉ (left.map Rose.value).map Prod.fst := fun member =>
        (List.nodup_append.mp distinct).2.2 _ member _ List.mem_cons_self rfl
      have length : ((left.map Rose.value).map Prod.fst).length = index := by
        rw [List.length_map, List.length_map, same]
      have there : ((left.map Rose.value).map Prod.fst ++
          child.value.1 :: (right.map Rose.value).map Prod.fst)[index]? = some child.value.1 := by
        rw [← length, List.getElem?_append_right (Nat.le_refl _), Nat.sub_self,
          List.getElem?_cons_zero]
      rw [Option.bind_some, there, Option.bind_some, idxOf?_append_cons absent, length]

/-- The nodes below a place spell the subtree there. -/
theorem spells {tree : Rose (Nat × Label)} (records : store.Records (fill context tree))
    (fit : Tree.IsFit ((fill context tree).map Prod.snd)) :
    store.Spells tree.value.1 (tree.map Prod.snd) := by
  have holds := records.holds
  rw [map_fill] at holds
  rw [Spells, ← value_map Prod.fst, holds.outline_fill, map_map, map_map]
  apply map_congr_preorder
  intro inner member
  rcases exists_place_of_mem member with ⟨way, values, place⟩
  rw [place, ← fill_append] at records fit
  exact records.labelOf?_place fit.place

end Records

end Store

end CallbackLint
