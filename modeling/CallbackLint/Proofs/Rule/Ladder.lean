import CallbackLint.Proofs.Rule.Decision
import CallbackLint.Proofs.Syntax.Layout

namespace CallbackLint

open Rose

/-!
# What a call sees of its tree

The rule follows links, but it does not see much.  On the way from a call up to
the root it reads, one level after the other, what the node above says about
itself, which of its children the way comes from, and the kind of the child after
that.  Such a level is a rung, and the rungs from a node up to the root are its
ladder.  The placement of a call is a function of its ladder.
-/

/-- What the way up to the root meets at one level.  It holds no names and no links, so that trees
that stand elsewhere, or have other nodes around them, can be compared. -/
structure Rung where
  /-- What the node above says about itself. -/
  upper : Label
  /-- The place of the node below among its siblings. -/
  place : Nat
  /-- The kind of the node below. -/
  lower : Kind
  /-- The kind of the sibling after it. -/
  next : Option Kind
deriving DecidableEq, Repr

namespace Rung

def isFunction (rung : Rung) : Bool := rung.upper.kind == .function

/-- Whether the node below is the body of the node above. -/
def isBody (rung : Rung) : Bool := rung.upper.body == some rung.place

end Rung

/-- The rungs from a node of a given kind up to the root, nearest first. -/
def ladder (kind : Kind) : Context Label → List Rung
  | [] => []
  | crumb :: context =>
    { upper := crumb.value, place := crumb.before.length, lower := kind
      next := crumb.after.head?.map Tree.kind } :: ladder crumb.value.kind context

/-! ## Placements -/

namespace Rung

def isReturnOperand : List Rung → Bool
  | parent :: _ => parent.upper.kind == .returnStatement
  | [] => false

/-- The node below the function is its body and no block. -/
def isImplicitReturn (function : Rung) : Bool :=
  function.isBody && function.lower != .block

/-- The node is a statement in a list, and the next one there is a `return`. -/
def isFollowedByReturn : List Rung → Bool
  | statement :: list :: _ =>
    statement.upper.kind == .expressionStatement && list.upper.kind.isStatementList &&
      list.next == some .returnStatement
  | _ => false

/-- The node is the last operand of an `&&` that is a statement. -/
def isGuarded : List Rung → Bool
  | operation :: statement :: _ =>
    operation.upper.kind == .logicalAnd && operation.next.isNone &&
      statement.upper.kind == .expressionStatement
  | _ => false

/-- The node is the last statement of a block that is the body of a function. -/
def isFunctionTail : List Rung → Bool
  | statement :: block :: rest =>
    statement.upper.kind == .expressionStatement && block.upper.kind == .block &&
      block.next.isNone && rest.head?.any fun function => function.isFunction && function.isBody
  | _ => false

/-- Where a call stands that has a given ladder. -/
def placement (rungs : List Rung) : Placement :=
  match rungs.find? isFunction with
  | none => .topLevel
  | some function =>
    if isReturnOperand rungs then .returnOperand
    else if isImplicitReturn function then .implicitReturn
    else if isFollowedByReturn rungs then .followedByReturn
    else if isGuarded rungs then .guarded
    else if isFunctionTail rungs then .functionTail
    else .unguarded

end Rung

/-! ## The same, along the links of a store -/

namespace Store

/-- The ladder of a place in a tree of named labels. -/
def ladderAt (context : Context (Nat × Label)) (tree : Rose (Nat × Label)) : List Rung :=
  ladder tree.value.2.kind (mapContext Prod.snd context)

theorem head?_kind (trees : List (Rose (Nat × Label))) :
    (mapAll Prod.snd trees).head?.map Tree.kind =
      trees.head?.map fun next => next.value.2.kind := by
  have next := congrArg (Option.map Label.kind) (head?_mapAll Prod.snd trees)
  rw [Option.map_map, Option.map_map] at next
  exact next

theorem ladderAt_cons (crumb : Crumb (Nat × Label)) (context : Context (Nat × Label))
    (tree : Rose (Nat × Label)) :
    ladderAt (crumb :: context) tree =
      { upper := crumb.value.2, place := crumb.before.length, lower := tree.value.2.kind
        next := crumb.after.head?.map fun next => next.value.2.kind } ::
        ladderAt context (crumb.fill tree) := by
  rw [ladderAt, mapContext, List.map_cons, ladder, Crumb.map, mapAll_eq_map Prod.snd crumb.before,
    List.length_map]
  exact congrArg₂ List.cons (congrArg (Rung.mk _ _ _) (head?_kind crumb.after)) rfl

namespace Records

variable {store : Store} {context : Context (Nat × Label)} {crumb : Crumb (Nat × Label)}
  {tree : Rose (Nat × Label)}

theorem holds_fill (records : store.Records (fill context tree)) :
    store.Holds (fill (mapContext Prod.fst context) (tree.map Prod.fst)) := by
  rw [← map_fill]
  exact records.holds

theorem outside (records : store.Records (fill (crumb :: context) tree)) :
    store.Records (fill context (crumb.fill tree)) := records

theorem kind?_value (records : store.Records (fill context tree)) :
    store.kind? tree.value.1 = some tree.value.2.kind := by
  cases tree with
  | node value below =>
      rw [value_node, kind?, records.node?_eq]
      rfl

theorem parentOf?_value (records : store.Records (fill context tree)) :
    store.parentOf? tree.value.1 = context.head?.map fun crumb => crumb.value.1 := by
  cases tree with
  | node value below =>
      rw [value_node, parentOf?, records.node?_eq, Option.bind_some, entry, Option.map_map]
      rfl

theorem parentOfKind?_root (records : store.Records (fill [] tree)) (kind : Kind) :
    store.parentOfKind? kind tree.value.1 = none := by
  rw [parentOfKind?, records.parentOf?_value]
  rfl

theorem parentOfKind?_below (records : store.Records (fill (crumb :: context) tree))
    (kind : Kind) :
    store.parentOfKind? kind tree.value.1 =
      if crumb.value.2.kind == kind then some crumb.value.1 else none := by
  have above := records.outside.kind?_value
  rw [Crumb.fill, value_node] at above
  rw [parentOfKind?, records.parentOf?_value, List.head?_cons, Option.map_some,
    Option.filter_some, above, Option.some_beq_some]

theorem nextSibling?_value (records : store.Records (fill (crumb :: context) tree)) :
    store.nextSibling? tree.value.1 = crumb.after.head?.map fun next => next.value.1 := by
  have next := @Holds.nextSibling?_eq store _ _ _ records.holds_fill
  rwa [value_map, Crumb.map, head?_mapAll] at next

/-- The kind of the next sibling is on the rung. -/
theorem kind?_nextSibling (records : store.Records (fill (crumb :: context) tree)) :
    (store.nextSibling? tree.value.1).bind store.kind? =
      crumb.after.head?.map fun next => next.value.2.kind := by
  rw [records.nextSibling?_value]
  rcases crumb with ⟨value, before, after⟩
  cases after with
  | nil => rfl
  | cons sibling rest =>
      have beside : store.Records
          (fill ({ value, before := before ++ [tree], after := rest } :: context) sibling) := by
        rw [fill, Crumb.fill, ← List.append_cons]
        exact records
      exact beside.kind?_value

/-- A node is the last child of the node above when its rung shows no sibling. -/
theorem getLast?_childrenOf (records : store.Records (fill (crumb :: context) tree)) :
    ((store.childrenOf crumb.value.1).getLast? == some tree.value.1) =
      (crumb.after.head?.map fun next => next.value.2.kind).isNone := by
  have member : tree.value.1 ∈
      (fill (mapContext Prod.fst (crumb :: context)) (tree.map Prod.fst)).preorder := by
    rw [preorder_fill, ← value_map Prod.fst tree]
    exact List.mem_append_left _ (List.mem_append_right _ (value_mem_preorder _))
  have link : store.parentOf? tree.value.1 = some crumb.value.1 := records.parentOf?_value
  have last := records.holds_fill.nextSibling?_eq_none_iff member link
  rw [records.nextSibling?_value] at last
  apply Bool.eq_iff_iff.mpr
  rw [beq_iff_eq, ← last, Option.isNone_iff_eq_none, Option.map_eq_none_iff,
    Option.map_eq_none_iff]

/-! ### Each test reads the ladder -/

theorem returnOperand_eq (records : store.Records (fill context tree)) :
    (store.parentOfKind? .returnStatement tree.value.1).isSome =
      Rung.isReturnOperand (ladderAt context tree) := by
  cases context with
  | nil =>
      rw [parentOfKind?_root records]
      rfl
  | cons parent context =>
      rw [records.parentOfKind?_below, ladderAt_cons, Rung.isReturnOperand]
      cases parent.value.2.kind == .returnStatement <;> rfl

/-- Below two crumbs the list of a statement is the upper one. -/
theorem statementListOf?_eq {statement list : Crumb (Nat × Label)}
    (records : store.Records (fill (statement :: list :: context) tree)) :
    store.statementListOf? tree.value.1 =
      if statement.value.2.kind == .expressionStatement && list.value.2.kind.isStatementList then
        some list.value.1
      else none := by
  rw [statementListOf?, statementOf?, records.parentOfKind?_below]
  cases statement.value.2.kind == .expressionStatement with
  | false => rfl
  | true =>
      have link := records.outside.parentOf?_value
      have listKind := records.outside.outside.kind?_value
      rw [Crumb.fill, value_node] at link listKind
      rw [if_pos rfl, Option.bind_some, link, List.head?_cons, Option.map_some,
        Option.filter_some, listKind, Option.map_some, Option.getD_some, Bool.true_and]

theorem followingStatement?_eq {statement list : Crumb (Nat × Label)}
    (records : store.Records (fill (statement :: list :: context) tree)) :
    store.followingStatement? tree.value.1 =
      if statement.value.2.kind == .expressionStatement && list.value.2.kind.isStatementList then
        store.nextSibling? statement.value.1
      else none := by
  rw [followingStatement?, records.statementListOf?_eq, statementOf?,
    records.parentOfKind?_below]
  cases statement.value.2.kind == .expressionStatement with
  | false => rfl
  | true => cases list.value.2.kind.isStatementList <;> rfl

/-- Without two nodes above it a call is in no list of statements. -/
theorem statementListOf?_near (records : store.Records (fill context tree))
    (short : context.length < 2) : store.statementListOf? tree.value.1 = none := by
  rcases context with _ | ⟨statement, _ | ⟨list, context⟩⟩
  · rw [statementListOf?, statementOf?, parentOfKind?_root records]
    rfl
  · have root := records.outside.parentOf?_value
    rw [Crumb.fill, value_node] at root
    rw [statementListOf?, statementOf?, records.parentOfKind?_below]
    cases statement.value.2.kind == .expressionStatement with
    | false => rfl
    | true =>
        rw [if_pos rfl, Option.bind_some, root]
        rfl
  · rw [List.length_cons, List.length_cons] at short
    omega

theorem followedByReturn_eq (records : store.Records (fill context tree)) :
    ((store.followingStatement? tree.value.1).bind store.kind? == some .returnStatement) =
      Rung.isFollowedByReturn (ladderAt context tree) := by
  rcases context with _ | ⟨statement, _ | ⟨list, context⟩⟩
  · rw [followingStatement?, records.statementListOf?_near (by simp)]
    rfl
  · rw [followingStatement?, records.statementListOf?_near (by simp), ladderAt_cons]
    rfl
  · have next := records.outside.kind?_nextSibling
    rw [Crumb.fill, value_node] at next
    rw [records.followingStatement?_eq, ladderAt_cons, ladderAt_cons, Rung.isFollowedByReturn]
    cases statement.value.2.kind == .expressionStatement &&
        list.value.2.kind.isStatementList with
    | false => rfl
    | true => rw [if_pos rfl, next, Bool.true_and]

theorem isGuarded_eq (records : store.Records (fill context tree)) :
    store.isGuarded tree.value.1 = Rung.isGuarded (ladderAt context tree) := by
  rcases context with _ | ⟨operation, _ | ⟨statement, context⟩⟩
  · rw [isGuarded, parentOfKind?_root records]
    rfl
  · have outer := parentOfKind?_root records.outside .expressionStatement
    rw [Crumb.fill, value_node] at outer
    rw [isGuarded, records.parentOfKind?_below, ladderAt_cons]
    cases operation.value.2.kind == .logicalAnd with
    | false => rfl
    | true =>
        rw [if_pos rfl]
        exact (congrArg (_ && Option.isSome ·) outer).trans (Bool.and_false _)
  · have outer := records.outside.parentOfKind?_below .expressionStatement
    rw [Crumb.fill, value_node] at outer
    rw [isGuarded, records.parentOfKind?_below, ladderAt_cons, ladderAt_cons, Rung.isGuarded,
      ← records.getLast?_childrenOf]
    cases operation.value.2.kind == .logicalAnd with
    | false => rfl
    | true =>
        rw [if_pos rfl, Bool.true_and]
        apply congrArg (_ && ·)
        rw [outer]
        cases statement.value.2.kind == .expressionStatement <;> rfl

/-! ### The function around a call -/

/-- The node below a crumb is the body of the node there when the rung says so. -/
theorem bodyOf?_eq (records : store.Records (fill (crumb :: context) tree)) :
    (store.bodyOf? crumb.value.1 == some tree.value.1) =
      (crumb.value.2.body == some crumb.before.length) := by
  have above : store.Records
    (fill context (.node crumb.value (crumb.before ++ tree :: crumb.after))) := records
  have distinct := above.holds_fill.distinct_children
  rw [mapAll_eq_map, List.map_map] at distinct
  have names : ((crumb.before ++ tree :: crumb.after).map (Rose.value ∘ Rose.map Prod.fst)) =
      ((crumb.before ++ tree :: crumb.after).map Rose.value).map Prod.fst := by
    rw [List.map_map]
    exact List.map_congr_left fun child _ => value_map Prod.fst child
  rw [names] at distinct
  have here : (((crumb.before ++ tree :: crumb.after).map Rose.value).map
      Prod.fst)[crumb.before.length]? = some tree.value.1 := by
    simp
  rw [bodyOf?, above.node?_eq, Option.bind_some, entry]
  apply Bool.eq_iff_iff.mpr
  rw [beq_iff_eq, beq_iff_eq, Option.bind_eq_some_iff]
  constructor
  · rintro ⟨index, body, found⟩
    have inside := (List.getElem?_eq_some_iff.mp found).1
    rw [body, (List.getElem?_inj inside distinct).mp (found.trans here.symm)]
  · intro body
    exact ⟨crumb.before.length, body, here⟩

theorem mem_childrenOf_of_bodyOf? (records : store.Records (fill context tree)) {body : Nat}
    (found : store.bodyOf? tree.value.1 = some body) : body ∈ store.childrenOf tree.value.1 := by
  cases tree with
  | node value below =>
      rw [value_node, bodyOf?, records.node?_eq, Option.bind_some, entry,
        Option.bind_eq_some_iff] at found
      rcases found with ⟨index, _, listed⟩
      rw [value_node, childrenOf, records.node?_eq]
      exact List.mem_of_getElem? listed

theorem parentOf?_of_bodyOf? (records : store.Records (fill context tree)) {body : Nat}
    (found : store.bodyOf? tree.value.1 = some body) :
    store.parentOf? body = some tree.value.1 := by
  have child := records.mem_childrenOf_of_bodyOf? found
  have holds := records.holds_fill
  cases tree with
  | node value below => exact holds.parentOf?_of_mem_childrenOf child

variable {inner outer : Context (Nat × Label)} {function : Crumb (Nat × Label)}

theorem expressionBody_eq (records : store.Records (fill (inner ++ function :: outer) tree)) :
    store.inExpressionBody function.value.1 tree.value.1 =
      (function.value.2.body == some function.before.length &&
        (fill inner tree).value.2.kind != .block) := by
  have below : store.Records (fill (function :: outer) (fill inner tree)) := by
    rw [← fill_append]
    exact records
  have holds := records.holds_fill
  rw [mapContext_append_cons] at holds
  have ancestors := holds.ancestors_eq
  rw [value_map, valuesAbove, List.map_append, List.map_cons] at ancestors
  rw [inExpressionBody, ← below.bodyOf?_eq]
  cases found : store.bodyOf? function.value.1 with
  | none => rfl
  | some body =>
      have child : body ∈ store.childrenOf function.value.1 :=
        below.outside.mem_childrenOf_of_bodyOf? found
      have onWay := holds.child_on_way_iff child
      rw [← map_fill, value_map, value_map] at onWay
      have reached : reachedWithin body function.value.1 (store.ancestors tree.value.1) = true ↔
          body ∈ valuesAbove (mapContext Prod.fst inner) ∨ body = function.value.1 := by
        rw [ancestors]
        exact reachedWithin_append holds.not_mem_way
      have up : (tree.value.1 == body || reachedWithin body function.value.1
          (store.ancestors tree.value.1)) = (some body == some (fill inner tree).value.1) := by
        apply Bool.eq_iff_iff.mpr
        rw [Bool.or_eq_true, beq_iff_eq, beq_iff_eq, Option.some.injEq, reached, eq_comm]
        exact onWay
      change (store.kind? body != some .block && (tree.value.1 == body || _)) = _
      rw [up]
      cases same : some body == some (fill inner tree).value.1 with
      | false => exact Bool.and_false _
      | true =>
          rw [beq_iff_eq, Option.some.injEq] at same
          rw [same, below.kind?_value, Bool.and_comm, bne, bne, Option.some_beq_some]

/-- The body of the innermost function is found one level up or not at all. -/
theorem bodyOf?_eq_any (records : store.Records (fill (inner ++ function :: outer) tree))
    (isFunction : function.value.2.kind = .function)
    (nearest : ∀ crumb ∈ inner, crumb.value.2.kind ≠ .function) :
    (store.bodyOf? function.value.1 == some tree.value.1) =
      (ladderAt (inner ++ function :: outer) tree).head?.any fun rung =>
        rung.isFunction && rung.isBody := by
  cases inner with
  | nil =>
      have same := records.bodyOf?_eq
      rw [same, List.nil_append, ladderAt_cons, List.head?_cons, Option.any_some,
        Rung.isFunction, isFunction]
      rfl
  | cons parent inner =>
      have otherKind := nearest parent List.mem_cons_self
      have notFunction : (parent.value.2.kind == .function) = false :=
        beq_eq_false_iff_ne.mpr otherKind
      rw [List.cons_append, ladderAt_cons, List.head?_cons, Option.any_some, Rung.isFunction,
        notFunction, Bool.false_and, beq_eq_false_iff_ne]
      intro found
      have below : store.Records (fill outer (function.fill (fill (parent :: inner) tree))) := by
        rw [fill_append] at records
        exact records
      have link := below.parentOf?_of_bodyOf? found
      have functionKind := below.kind?_value
      have parentKind := records.outside.kind?_value
      rw [records.parentOf?_value, List.cons_append, List.head?_cons, Option.map_some,
        Option.some.injEq] at link
      rw [Crumb.fill, value_node] at functionKind parentKind link
      rw [← link, parentKind, Option.some.injEq] at functionKind
      exact otherKind (functionKind.trans isFunction)

/-- A node of known kind is the block of a function if it is a block and the
body. -/
theorem bodyBlock?_eq (function : Nat) {name : Nat} {kind : Kind}
    (kindEq : store.kind? name = some kind) :
    (some name == store.bodyBlock? function) =
      (kind == .block && store.bodyOf? function == some name) := by
  apply Bool.eq_iff_iff.mpr
  rw [beq_iff_eq, eq_comm, bodyBlock?, Option.filter_eq_some_iff, kindEq, Option.some_beq_some,
    Bool.and_eq_true, beq_iff_eq (a := store.bodyOf? _), and_comm]

theorem functionTail_eq (records : store.Records (fill (inner ++ function :: outer) tree))
    (isFunction : function.value.2.kind = .function)
    (nearest : ∀ crumb ∈ inner, crumb.value.2.kind ≠ .function) :
    ((store.statementListOf? tree.value.1).isSome &&
      store.statementListOf? tree.value.1 == store.bodyBlock? function.value.1 &&
      (store.followingStatement? tree.value.1).isNone) =
        Rung.isFunctionTail (ladderAt (inner ++ function :: outer) tree) := by
  rcases inner with _ | ⟨statement, _ | ⟨list, inner⟩⟩
  · -- The function itself is no statement.
    rw [List.nil_append] at records ⊢
    cases outer with
    | nil =>
        rw [records.statementListOf?_near (by simp), ladderAt_cons]
        rfl
    | cons next outer =>
        rw [records.statementListOf?_eq, ladderAt_cons, ladderAt_cons, Rung.isFunctionTail,
          isFunction]
        rfl
  · -- It holds no list of statements either.
    rw [List.cons_append, List.nil_append] at records ⊢
    have noList : Kind.isStatementList .function = false := rfl
    rw [records.statementListOf?_eq, ladderAt_cons, ladderAt_cons, Rung.isFunctionTail,
      isFunction, noList, Bool.and_false]
    cases statement.value.2.kind == .expressionStatement <;> rfl
  · rw [List.cons_append, List.cons_append] at records ⊢
    have body := records.outside.outside.bodyOf?_eq_any isFunction
      fun crumb member => nearest crumb (List.mem_cons_of_mem _ (List.mem_cons_of_mem _ member))
    have next := records.outside.nextSibling?_value
    have blockKind := records.outside.outside.kind?_value
    rw [Crumb.fill, value_node] at next blockKind body
    have block := bodyBlock?_eq function.value.1 blockKind
    rw [records.statementListOf?_eq, records.followingStatement?_eq, ladderAt_cons, ladderAt_cons,
      Rung.isFunctionTail]
    cases statement.value.2.kind == .expressionStatement with
    | false => rfl
    | true =>
        cases isList : list.value.2.kind.isStatementList with
        | false =>
            have noBlock : (list.value.2.kind == .block) = false := by
              apply beq_eq_false_iff_ne.mpr
              intro isBlock
              rw [isBlock] at isList
              cases isList
            rw [noBlock]
            rfl
        | true =>
            rw [Bool.true_and, Bool.true_and, if_pos rfl, if_pos rfl, Option.isSome_some,
              Bool.true_and, block, body, next, Option.isNone_map, Option.isNone_map,
              Bool.and_right_comm]
            rfl

/-! ### The placement -/

theorem ladderAt_append (inner outer : Context (Nat × Label)) (tree : Rose (Nat × Label)) :
    ladderAt (inner ++ outer) tree = ladderAt inner tree ++ ladderAt outer (fill inner tree) := by
  induction inner generalizing tree with
  | nil => rfl
  | cons crumb inner inductionHypothesis =>
      rw [List.cons_append, ladderAt_cons, ladderAt_cons, inductionHypothesis]
      rfl

theorem find?_ladderAt (nearest : ∀ crumb ∈ context, crumb.value.2.kind ≠ .function) :
    (ladderAt context tree).find? Rung.isFunction = none := by
  induction context generalizing tree with
  | nil => rfl
  | cons crumb context inductionHypothesis =>
      have notFunction : (crumb.value.2.kind == .function) = false :=
        beq_eq_false_iff_ne.mpr (nearest crumb List.mem_cons_self)
      rw [ladderAt_cons, List.find?_cons_of_neg]
      · exact inductionHypothesis fun other member => nearest other (List.mem_cons_of_mem _ member)
      · rw [Rung.isFunction, notFunction]
        exact Bool.false_ne_true

theorem functionsAbove_eq (records : store.Records (fill context tree)) :
    (store.functionsAbove (mapContext Prod.fst context)).head? =
      (context.find? fun crumb => crumb.value.2.kind == .function).map
        fun crumb => crumb.value.1 := by
  induction context generalizing tree with
  | nil => rfl
  | cons crumb context inductionHypothesis =>
      have outer := records.outside
      have kindEq := outer.kind?_value
      rw [Crumb.fill, value_node] at kindEq
      rw [mapContext, List.map_cons, functionsAbove_cons, Crumb.map, kindEq, List.find?_cons]
      by_cases isFunction : crumb.value.2.kind = .function
      · rw [if_pos (congrArg some isFunction), beq_iff_eq.mpr isFunction]
        rfl
      · rw [if_neg (mt Option.some.inj isFunction), beq_eq_false_iff_ne.mpr isFunction]
        exact inductionHypothesis outer

/-- The placement of a call is that of its ladder. -/
theorem placementOf_eq (records : store.Records (fill context tree)) {frame? : Option Frame}
    (current : frame?.map Frame.function =
      (store.functionsAbove (mapContext Prod.fst context)).head?) :
    store.placementOf frame? tree.value.1 = Rung.placement (ladderAt context tree) := by
  rw [records.functionsAbove_eq] at current
  cases found : context.find? fun crumb => crumb.value.2.kind == .function with
  | none =>
      have nearest : ∀ crumb ∈ context, crumb.value.2.kind ≠ .function := by
        intro crumb member isFunction
        exact List.find?_eq_none.mp found crumb member (beq_iff_eq.mpr isFunction)
      rw [found, Option.map_none, Option.map_eq_none_iff] at current
      rw [current, Rung.placement, find?_ladderAt nearest]
      rfl
  | some function =>
      rcases List.find?_eq_some_iff_append.mp found with ⟨isFunction, inner, outer, split, before⟩
      rw [beq_iff_eq] at isFunction
      have nearest : ∀ crumb ∈ inner, crumb.value.2.kind ≠ .function := by
        intro crumb member other
        have notFunction := before crumb member
        rw [other] at notFunction
        cases notFunction
      rw [found, Option.map_some, Option.map_eq_some_iff] at current
      rcases current with ⟨frame, frameEq, functionEq⟩
      rw [split] at records ⊢
      have rung : (ladderAt (inner ++ function :: outer) tree).find? Rung.isFunction =
          some { upper := function.value.2, place := function.before.length
                 lower := (fill inner tree).value.2.kind
                 next := function.after.head?.map fun next => next.value.2.kind } := by
        rw [ladderAt_append, List.find?_append, find?_ladderAt nearest, Option.none_or,
          ladderAt_cons, List.find?_cons_of_pos]
        rw [Rung.isFunction, isFunction]
        rfl
      rw [frameEq, placementOf, Rung.placement, rung]
      simp only
      rw [functionEq, records.returnOperand_eq, records.expressionBody_eq,
        records.followedByReturn_eq, records.isGuarded_eq,
        records.functionTail_eq isFunction nearest]
      rfl

end Records
end Store

end CallbackLint
