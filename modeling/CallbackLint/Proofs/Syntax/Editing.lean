import CallbackLint.Proofs.Syntax.Building

namespace CallbackLint

open Rose

/-!
# Two edits of a list of statements

A statement can be turned into a `return` of what it consists of, and a `return`
without children can be put right after it.  The first edit changes what one node
says about itself.  The second adds a leaf and lists it among the children of one
node.  No other node learns of either, so the store still holds the tree, in the
second case with the leaf in it.
-/

namespace Store

/-! ## The edits -/

/-- A statement becomes a `return` with the same children. -/
def turnIntoReturn (store : Store) (statement : Nat) : Store :=
  store.revise statement fun node =>
    { kind := .returnStatement, position := node.position, children := node.children
      parent := node.parent }

/-- The names in a list, with a new one right after a given one. -/
def insertAfter (given new : Nat) (names : List Nat) : List Nat :=
  names.flatMap fun name => if name = given then [name, new] else [name]

/-- A `return` without children is put right after a node, among the children of its
parent.  It takes the first free name. -/
def putReturnAfter (store : Store) (statement : Nat) (position : Position) : Store :=
  match store.parentOf? statement with
  | none => store
  | some parent =>
    let listing := store.revise parent fun node =>
      { node with children := insertAfter statement store.nodes.size node.children }
    { nodes := listing.nodes.push
        { kind := .returnStatement, position, parent := some parent } }

theorem insertAfter_of_notMem {given : Nat} (new : Nat) {names : List Nat}
    (absent : given ∉ names) : insertAfter given new names = names := by
  induction names with
  | nil => rfl
  | cons name rest inductionHypothesis =>
      rw [List.mem_cons, not_or] at absent
      rw [insertAfter, List.flatMap_cons, if_neg (Ne.symm absent.1)]
      exact congrArg (List.cons name) (inductionHypothesis absent.2)

theorem insertAfter_of_split {given : Nat} (new : Nat) {before after : List Nat}
    (notBefore : given ∉ before) (notAfter : given ∉ after) :
    insertAfter given new (before ++ given :: after) = before ++ given :: new :: after := by
  have first := insertAfter_of_notMem new notBefore
  have last := insertAfter_of_notMem new notAfter
  rw [insertAfter] at first last ⊢
  rw [List.flatMap_append, List.flatMap_cons, if_pos rfl, first, last]
  rfl

/-- The first of the names stays the first. -/
theorem head?_insertAfter (given new : Nat) (names : List Nat) :
    (insertAfter given new names).head? = names.head? := by
  cases names with
  | nil => rfl
  | cons name rest =>
      rw [insertAfter, List.flatMap_cons]
      split <;> rfl

theorem mem_of_mem_insertAfter {given new name : Nat} {names : List Nat}
    (member : name ∈ insertAfter given new names) : name = new ∨ name ∈ names := by
  rw [insertAfter, List.mem_flatMap] at member
  rcases member with ⟨found, listed, here⟩
  split at here
  · rcases List.mem_cons.mp here with same | later
    · exact Or.inr (same ▸ listed)
    · exact Or.inl (List.mem_singleton.mp later)
  · exact Or.inr (List.mem_singleton.mp here ▸ listed)

/-- Around another name, the lists on both sides are edited apart. -/
theorem insertAfter_around {given name : Nat} (new : Nat) (different : name ≠ given)
    (before after : List Nat) :
    insertAfter given new (before ++ name :: after) =
      insertAfter given new before ++ name :: insertAfter given new after := by
  rw [insertAfter, List.flatMap_append, List.flatMap_cons, if_neg different]
  rfl

/-! ## What the edits leave alone -/

/-- What a node says about itself and about the nodes above it. -/
def withoutChildren (node : Node) : Node := { node with children := [] }

/-- Under every name but one, two stores have the same node, up to its children. -/
def AgreeExcept (changed : Nat) (store other : Store) : Prop :=
  ∀ name, name ≠ changed →
    (other.node? name).map withoutChildren = (store.node? name).map withoutChildren

namespace AgreeExcept

variable {changed : Nat} {store other : Store} {name : Nat}

/-- What is read off a node, but not off its children, is the same in both stores. -/
theorem bind_eq {β : Type} (agree : AgreeExcept changed store other) (different : name ≠ changed)
    (read : Node → Option β) (blind : ∀ node, read (withoutChildren node) = read node) :
    (other.node? name).bind read = (store.node? name).bind read := by
  have same := congrArg (fun found => Option.bind found read) (agree name different)
  have through : read ∘ withoutChildren = read := funext blind
  rwa [Option.bind_map, Option.bind_map, through] at same

theorem kind?_eq (agree : AgreeExcept changed store other) (different : name ≠ changed) :
    other.kind? name = store.kind? name := by
  rw [kind?, kind?, Option.map_eq_bind, Option.map_eq_bind]
  exact agree.bind_eq different _ fun _ => rfl

theorem parentOf?_eq (agree : AgreeExcept changed store other) (different : name ≠ changed) :
    other.parentOf? name = store.parentOf? name := agree.bind_eq different _ fun _ => rfl

theorem bodyOf?_eq (agree : AgreeExcept changed store other) (different : name ≠ changed) :
    other.bodyOf? name = store.bodyOf? name := agree.bind_eq different _ fun _ => rfl

/-- The identifier of a call is the same in both stores. -/
theorem exists_call_iff (agree : AgreeExcept changed store other) (different : name ≠ changed)
    (names : List String) :
    (∃ node callee, other.node? name = some node ∧ node.kind = .call ∧
        node.callee = some callee ∧ callee ∈ names) ↔
      ∃ node callee, store.node? name = some node ∧ node.kind = .call ∧
        node.callee = some callee ∧ callee ∈ names := by
  have same := agree name different
  constructor
  · rintro ⟨node, callee, found, isCall, named, listed⟩
    rw [found, Option.map_some, eq_comm, Option.map_eq_some_iff] at same
    rcases same with ⟨old, oldFound, alike⟩
    have kinds := congrArg Node.kind alike
    have callees := congrArg Node.callee alike
    exact ⟨old, callee, oldFound, kinds.trans isCall, callees.trans named, listed⟩
  · rintro ⟨node, callee, found, isCall, named, listed⟩
    rw [found, Option.map_some, Option.map_eq_some_iff] at same
    rcases same with ⟨new, newFound, alike⟩
    have kinds := congrArg Node.kind alike
    have callees := congrArg Node.callee alike
    exact ⟨new, callee, newFound, kinds.trans isCall, callees.trans named, listed⟩

end AgreeExcept

variable {store : Store} {shape : Rose Nat} {context : Context Nat} {crumb : Crumb Nat}
  {tree : Rose Nat}

/-! ## Turning a statement into a `return` -/

theorem agreeExcept_turnIntoReturn (store : Store) (statement : Nat) :
    AgreeExcept statement store (store.turnIntoReturn statement) := by
  intro name different
  rw [turnIntoReturn, node?_revise, if_neg different]

theorem kind?_turnIntoReturn {statement : Nat} {kind : Kind}
    (found : store.kind? statement = some kind) :
    (store.turnIntoReturn statement).kind? statement = some .returnStatement := by
  rcases Option.map_eq_some_iff.mp found with ⟨node, found, _⟩
  rw [kind?, turnIntoReturn, node?_revise, if_pos rfl, found]
  rfl

theorem linksOf?_turnIntoReturn (store : Store) (statement name : Nat) :
    (store.turnIntoReturn statement).linksOf? name = store.linksOf? name := by
  rw [linksOf?, turnIntoReturn, node?_revise]
  by_cases same : name = statement
  · rw [if_pos same, Option.map_map]
    rfl
  · rw [if_neg same]
    rfl

theorem parentOf?_eq_bind_linksOf? (store : Store) (name : Nat) :
    store.parentOf? name = (store.linksOf? name).bind Prod.fst := by
  rw [parentOf?, linksOf?, Option.bind_map]
  rfl

theorem childrenOf_eq_linksOf? (store : Store) (name : Nat) :
    store.childrenOf name = ((store.linksOf? name).map Prod.snd).getD [] := by
  rw [childrenOf, linksOf?, Option.map_map]
  cases store.node? name <;> rfl

theorem parentOf?_turnIntoReturn (store : Store) (statement name : Nat) :
    (store.turnIntoReturn statement).parentOf? name = store.parentOf? name := by
  rw [parentOf?_eq_bind_linksOf?, parentOf?_eq_bind_linksOf?, linksOf?_turnIntoReturn]

theorem childrenOf_turnIntoReturn (store : Store) (statement name : Nat) :
    (store.turnIntoReturn statement).childrenOf name = store.childrenOf name := by
  rw [childrenOf_eq_linksOf?, childrenOf_eq_linksOf?, linksOf?_turnIntoReturn]

/-- The links stay, so the store holds the same tree. -/
theorem Holds.turnIntoReturn (holds : store.Holds shape) (statement : Nat) :
    (store.turnIntoReturn statement).Holds shape where
  distinct := holds.distinct
  linked := by
    apply holds.linked.imp
    intro name _ parent children links
    rw [linksOf?_turnIntoReturn, links]

/-! ## Putting a `return` after a statement -/

section Put

variable {statement list : Nat} (position : Position)
  (inList : store.parentOf? statement = some list)

include inList

theorem node?_putReturnAfter (name : Nat) :
    (store.putReturnAfter statement position).node? name =
      if name = store.nodes.size then
        some { kind := .returnStatement, position, parent := some list }
      else if name = list then
        (store.node? name).map fun node =>
          { node with children := insertAfter statement store.nodes.size node.children }
      else store.node? name := by
  rw [← node?_revise, putReturnAfter, inList]
  simp only [node?, Array.getElem?_push, revise, Array.size_modify]

theorem agreeExcept_putReturnAfter :
    AgreeExcept store.nodes.size store (store.putReturnAfter statement position) := by
  intro name different
  rw [node?_putReturnAfter position inList, if_neg different]
  by_cases listed : name = list
  · rw [if_pos listed, Option.map_map]
    rfl
  · rw [if_neg listed]

theorem childrenOf_putReturnAfter {name : Nat} (notNew : name ≠ store.nodes.size) :
    (store.putReturnAfter statement position).childrenOf name =
      if name = list then insertAfter statement store.nodes.size (store.childrenOf name)
      else store.childrenOf name := by
  rw [childrenOf, node?_putReturnAfter position inList, if_neg notNew, childrenOf]
  by_cases listed : name = list
  · rw [if_pos listed, if_pos listed]
    cases store.node? name <;> rfl
  · rw [if_neg listed, if_neg listed]

theorem linksOf?_putReturnAfter {name : Nat} (notNew : name ≠ store.nodes.size)
    (notListed : name ≠ list) :
    (store.putReturnAfter statement position).linksOf? name = store.linksOf? name := by
  rw [linksOf?, node?_putReturnAfter position inList, if_neg notNew, if_neg notListed, linksOf?]

theorem kind?_putReturnAfter :
    (store.putReturnAfter statement position).kind? store.nodes.size = some .returnStatement := by
  rw [kind?, node?_putReturnAfter position inList, if_pos rfl]
  rfl

/-- Only the statement itself gets another next sibling. -/
theorem nextSibling?_putReturnAfter (holds : store.Holds shape) {name : Nat}
    (member : name ∈ shape.preorder) (different : name ≠ statement) :
    (store.putReturnAfter statement position).nextSibling? name = store.nextSibling? name := by
  have notNew : ∀ name ∈ shape.preorder, name ≠ store.nodes.size := fun name member =>
    Nat.ne_of_lt (holds.lt_size_of_mem member)
  have parentEq := (agreeExcept_putReturnAfter position inList).parentOf?_eq (notNew name member)
  cases link : store.parentOf? name with
  | none => rw [nextSibling?, nextSibling?, parentEq, link, Option.bind_none, Option.bind_none]
  | some parent =>
      have parentInTree := holds.parent_mem member link
      rcases holds.exists_siblings member link with ⟨before, after, split, notBefore, _⟩
      have children := childrenOf_putReturnAfter position inList (notNew parent parentInTree)
      rw [link] at parentEq
      by_cases listed : parent = list
      · have notInside : name ∉ insertAfter statement store.nodes.size before := fun inside =>
          (mem_of_mem_insertAfter inside).elim (notNew name member) notBefore
        rw [if_pos listed, split, insertAfter_around _ different] at children
        rw [nextSibling?_of_split parentEq children notInside, head?_insertAfter,
          nextSibling?_of_split link split notBefore]
      · rw [if_neg listed, split] at children
        rw [nextSibling?_of_split parentEq children notBefore,
          nextSibling?_of_split link split notBefore]

end Put

/-- A tree without the list, held by the store, keeps its links. -/
theorem everywhere_putReturnAfter {statement list : Nat} (position : Position)
    (inList : store.parentOf? statement = some list) {parent : Option Nat}
    (old : ∀ name ∈ tree.preorder, name ≠ store.nodes.size ∧ name ≠ list)
    (linked : tree.Everywhere (fun parent name children =>
      store.linksOf? name = some (parent, children)) parent) :
    tree.Everywhere (fun parent name children =>
      (store.putReturnAfter statement position).linksOf? name = some (parent, children))
      parent := by
  apply linked.imp
  intro name member parent children links
  rw [linksOf?_putReturnAfter position inList (old name member).1 (old name member).2, links]

/-- The new leaf stands right after the place, and everything else where it was. -/
theorem Holds.putReturnAfter (holds : store.Holds (fill (crumb :: context) tree))
    (position : Position) :
    (store.putReturnAfter tree.value position).Holds
      (fill (crumb.withLeaf store.nodes.size :: context) tree) := by
  have inList : store.parentOf? tree.value = some crumb.value := holds.parentOf?_value
  have outside : store.Holds
    (fill context (.node crumb.value (crumb.before ++ tree :: crumb.after))) := holds
  have notNew : ∀ name ∈ (fill (crumb :: context) tree).preorder, name ≠ store.nodes.size :=
    fun name member => Nat.ne_of_lt (holds.lt_size_of_mem member)
  have distinct := holds.distinct
  rw [fill, preorder_fill, Crumb.fill, preorder] at distinct notNew
  constructor
  · rcases preorder_fill_withLeaf crumb context tree store.nodes.size with
      ⟨before, after, whole, withLeaf⟩
    have fresh : store.nodes.size ∉ before ++ after := fun member =>
      Nat.lt_irrefl _ (holds.lt_size_of_mem (whole ▸ member))
    rw [withLeaf, List.nodup_middle, List.nodup_cons]
    exact ⟨fresh, whole ▸ holds.distinct⟩
  · have below : ∀ sibling ∈ crumb.before ++ tree :: crumb.after, ∀ name ∈ sibling.preorder,
        name ≠ store.nodes.size ∧ name ≠ crumb.value := by
      intro sibling listed name member
      have among := (preorder_sublist_preorderAll listed).subset member
      constructor
      · apply notNew name
        exact List.mem_append_left _ (List.mem_append_right _ (List.mem_cons_of_mem _ among))
      · intro same
        have inner := (List.nodup_append.mp (List.nodup_append.mp distinct).1).2.1
        exact (List.nodup_cons.mp inner).1 (same ▸ among)
    have linked : Everywhere (fun parent name children => store.linksOf? name =
        some (parent, children)) none (fill context (crumb.fill tree)) := holds.linked
    change Everywhere _ none (fill context ((crumb.withLeaf store.nodes.size).fill tree))
    refine Everywhere.refill linked rfl ?_ ?_
    · intro name member parent children links
      have inTree : name ∈ preorderBefore context ++
          crumb.value :: preorderAll (crumb.before ++ tree :: crumb.after) ++
            preorderAfter context := by
        rcases List.mem_append.mp member with before | after
        · exact List.mem_append_left _ (List.mem_append_left _ before)
        · exact List.mem_append_right _ after
      have notListed : name ≠ crumb.value := by
        intro same
        rw [List.append_assoc] at distinct
        have notInside := (List.nodup_cons.mp (List.nodup_middle.mp distinct)).1
        rw [← same] at notInside
        apply notInside
        rcases List.mem_append.mp member with before | after
        · exact List.mem_append_left _ before
        · exact List.mem_append_right _ (List.mem_append_right _ after)
      rw [linksOf?_putReturnAfter position inList (notNew name inTree) notListed, links]
    · have whole := everywhere_fill linked
      rw [Crumb.fill, Everywhere, everywhereAll_iff] at whole ⊢
      constructor
      · rcases Option.map_eq_some_iff.mp whole.1 with ⟨node, found, links⟩
        rw [Prod.mk.injEq, List.map_append, List.map_cons] at links
        have notLeaf : crumb.value ≠ store.nodes.size :=
          notNew _ (List.mem_append_left _ (List.mem_append_right _ List.mem_cons_self))
        have listed := insertAfter_of_split store.nodes.size holds.not_mem_before
          holds.not_mem_after
        rw [linksOf?, node?_putReturnAfter position inList, Crumb.withLeaf, if_neg notLeaf,
          if_pos rfl, found, Option.map_some, Option.map_some, links.1, links.2, listed,
          List.map_append, List.map_cons, List.map_cons]
        rfl
      · intro sibling listed
        rw [Crumb.withLeaf, List.mem_append, List.mem_cons, List.mem_cons, or_left_comm,
          or_left_comm (a := sibling ∈ crumb.before), or_left_comm] at listed
        rcases listed with leaf | old
        · rw [leaf, Everywhere, linksOf?, node?_putReturnAfter position inList, if_pos rfl]
          exact ⟨rfl, trivial⟩
        · have among : sibling ∈ crumb.before ++ tree :: crumb.after := by
            rw [List.mem_append, List.mem_cons]
            exact or_left_comm.mp old
          exact everywhere_putReturnAfter position inList (below sibling among)
            (whole.2 sibling among)

/-- The store then holds the tree with one more leaf. -/
theorem Holds.exists_putReturnAfter {statement list : Nat} (holds : store.Holds shape)
    (member : statement ∈ shape.preorder) (inList : store.parentOf? statement = some list)
    (position : Position) :
    ∃ larger : Rose Nat, (store.putReturnAfter statement position).Holds larger ∧
      larger.value = shape.value ∧
      ∃ before after, shape.preorder = before ++ after ∧
        larger.preorder = before ++ store.nodes.size :: after := by
  rcases exists_place_of_mem member with ⟨context, below, place⟩
  rw [place] at holds ⊢
  rw [holds.parentOf?_eq] at inList
  cases context with
  | nil => cases inList
  | cons crumb context =>
      refine ⟨_, holds.putReturnAfter position, ?_, preorder_fill_withLeaf crumb context _ _⟩
      exact value_fill_congr context rfl

end Store

end CallbackLint
