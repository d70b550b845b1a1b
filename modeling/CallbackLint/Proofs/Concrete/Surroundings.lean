import CallbackLint.Concrete.Lowering
import CallbackLint.Proofs.Concrete.Replacement

namespace CallbackLint

open Rose

/-!
# Where visited nodes go

What a visited node becomes is a subtree of what the whole tree becomes.  What is around this
subtree depends on the label of the node and on the position of the subtree, but not on
anything else in the node: a parent asks its children for their labels, and a branch of a
`switch` begins where its first statement does.
-/

namespace Lowering

/-! ## What a child becomes, in what its parent becomes -/

theorem present_append (first second : Lowered) :
    present (first ++ second) = present first ++ present second := List.filterMap_append

theorem present_cons (identity : Int) (tree : Tree) (rest : Lowered) :
    present ((identity, some tree) :: rest) = tree :: present rest := rfl

/-- The place of a body is told by identities alone. -/
theorem placeOf_replace (identity child : Int) (old new : Tree) (left right : Lowered) (place : Nat)
    (found : Option Nat) :
    placeOf identity place found (left ++ (child, some new) :: right) =
      placeOf identity place found (left ++ (child, some old) :: right) := by
  induction left generalizing place found with
  | nil => rfl
  | cons entry left inductionHypothesis =>
      rcases entry with ⟨other, none | tree⟩
      · exact inductionHypothesis place _
      · exact inductionHypothesis (place + 1) _

/-- What the children of some identities became. -/
def presentIf (chosen : Int → Bool) (lowered : Lowered) : List Tree :=
  present (lowered.filter fun child => chosen child.1)

theorem presentIf_split (chosen : Int → Bool) (left right : Lowered) (identity : Int)
    (tree : Tree) :
    presentIf chosen (left ++ (identity, some tree) :: right) =
      presentIf chosen left ++ ((if chosen identity then [tree] else []) ++
        presentIf chosen right) := by
  rw [presentIf, List.filter_append, List.filter_cons, present_append]
  cases chosen identity with
  | false => rfl
  | true => rfl

/-- The branch of a `switch` over what became of its value and of its statements. -/
def branch (position : Position) (values statements : List Tree) : Tree :=
  .plain .switchCase position
    (values ++ [.plain .block ((statements.head?.map Tree.position).getD position) statements])

theorem buildCase_eq (node : Concrete) (lowered : Lowered) (position : Position) :
    buildCase node lowered position = branch position
      (presentIf (fun identity => node.identityInRole? "value" == some identity) lowered)
      (presentIf (fun identity => node.identityInRole? "value" != some identity) lowered) := rfl

theorem exists_way_value (own : Position) (left right statements : List Tree) :
    ∃ way : Context Label, ∀ tree : Tree,
      branch own (left ++ tree :: right) statements = fill way tree := by
  refine ⟨[{
    value := { kind := .switchCase, position := own }
    before := left
    after := right ++
      [.plain .block ((statements.head?.map Tree.position).getD own) statements] }],
    fun tree => ?_⟩
  rw [branch, List.append_assoc]
  rfl

theorem exists_way_statement (own position : Position) (values left right : List Tree) :
    ∃ way : Context Label, ∀ tree : Tree, tree.position = position →
      branch own values (left ++ tree :: right) = fill way tree := by
  refine ⟨[{
    value := { kind := .block, position := (left.head?.map Tree.position).getD position }
    before := left, after := right }, {
    value := { kind := .switchCase, position := own }
    before := values, after := [] }], fun tree same => ?_⟩
  have start : ((left ++ tree :: right).head?.map Tree.position).getD own =
      (left.head?.map Tree.position).getD position := by
    cases left with
    | nil => exact same
    | cons first rest => rfl
  rw [branch, start]
  rfl

variable (source : List UInt8) (node : Concrete) (left right : Lowered) (identity : Int)
  (position : Position)

/-- A branch of a `switch` has what one of its children became below itself or below the
block. -/
theorem exists_way_of_case (own : Position) : ∃ way : Context Label, ∀ tree : Tree,
    tree.position = position →
      buildCase node (left ++ (identity, some tree) :: right) own = fill way tree := by
  let isValue : Int → Bool := fun identity => node.identityInRole? "value" == some identity
  let isStatement : Int → Bool := fun identity => node.identityInRole? "value" != some identity
  cases role : isValue identity with
  | true =>
      have noStatement : isStatement identity = false := congrArg not role
      rcases exists_way_value own (presentIf isValue left) (presentIf isValue right)
        (presentIf isStatement left ++ presentIf isStatement right) with ⟨way, inside⟩
      refine ⟨way, fun tree _ => ?_⟩
      rw [buildCase_eq, presentIf_split isValue, presentIf_split isStatement, role, noStatement]
      exact inside tree
  | false =>
      have among : isStatement identity = true := congrArg not role
      rcases exists_way_statement own position (presentIf isValue left ++ presentIf isValue right)
        (presentIf isStatement left) (presentIf isStatement right) with ⟨way, inside⟩
      refine ⟨way, fun tree same => ?_⟩
      rw [buildCase_eq, presentIf_split isValue, presentIf_split isStatement, role, among]
      exact inside tree same

/-- What a node becomes has what one of its children became somewhere below it. -/
theorem exists_way : ∃ way : Context Label, ∀ tree : Tree, tree.position = position →
    build source node (left ++ (identity, some tree) :: right) = fill way tree := by
  by_cases wrapper : wrapperTypes.contains node.value.type = true
  · by_cases alone : present left = [] ∧ present right = []
    · refine ⟨[], fun tree _ => ?_⟩
      rw [build, if_pos wrapper, present_append, present_cons, alone.1, alone.2]
      rfl
    · refine ⟨[{
        value := { kind := .other, position := node.value.position source }
        before := present left, after := present right }], fun tree _ => ?_⟩
      rw [build, if_pos wrapper, present_append, present_cons]
      split
      · rename_i inner single
        have sides := List.append_eq_singleton_iff.mp single
        rcases sides with ⟨leftEq, restEq⟩ | ⟨_, impossible⟩
        · exact False.elim (alone ⟨leftEq, (List.cons.inj restEq).2⟩)
        · cases impossible
      · rfl
  by_cases call : isCall node = true
  · refine ⟨[{
      value := { kind := .call, position := node.value.position source
                 callee := calleeOf? source node }
      before := present left, after := present right }], fun tree _ => ?_⟩
    rw [build, if_neg wrapper, if_pos call, present_append, present_cons]
    rfl
  by_cases function : functionTypes.contains node.value.type = true
  · refine ⟨[{
      value := { kind := .function, position := node.value.position source
                 body := bodyPlace? node
                  (left ++ (identity, some (.plain .other position [])) :: right) }
      before := present left, after := present right }], fun tree _ => ?_⟩
    have body : bodyPlace? node (left ++ (identity, some tree) :: right) = bodyPlace? node
        (left ++ (identity, some (.plain .other position [])) :: right) := by
      rw [bodyPlace?, bodyPlace?]
      apply congrArg
      funext role
      exact placeOf_replace role identity _ _ left right 0 none
    rw [build, if_neg wrapper, if_neg call, if_pos function, body, present_append, present_cons]
    rfl
  by_cases isCase : caseTypes.contains node.value.type = true
  · rcases exists_way_of_case node left right identity position
      (node.value.position source) with ⟨way, inside⟩
    refine ⟨way, fun tree same => ?_⟩
    rw [build, if_neg wrapper, if_neg call, if_neg function, if_pos isCase]
    exact inside tree same
  · refine ⟨[{
      value := { kind := plainKind node, position := node.value.position source }
      before := present left, after := present right }], fun tree _ => ?_⟩
    rw [build, if_neg wrapper, if_neg call, if_neg function, if_neg isCase, present_append,
      present_cons]
    rfl

end Lowering

namespace Concrete

open Lowering

/-! ## Visited places -/

/-- Lowering visits a place if the node there is visible, and so is every node above it.  The
root is visited in any case. -/
def IsVisited : Context ConcreteLabel → Concrete → Prop
  | [], _ => True
  | crumb :: context, inner => inner.value.isVisible = true ∧ IsVisited context (crumb.fill inner)

/-- What a visited node becomes is found in what the whole tree becomes, and what is around it
does not depend on what is below the node. -/
theorem exists_around (source : List UInt8) (context : Context ConcreteLabel) (node : Concrete)
    (visited : IsVisited context node) :
    ∃ around : Context Label, ∀ other : Concrete, other.value = node.value →
      (lowerDirectly source other).position = (lowerDirectly source node).position →
        lowerDirectly source (fill context other) = fill around (lowerDirectly source other) := by
  induction context generalizing node with
  | nil => exact ⟨[], fun _ _ _ => rfl⟩
  | cons crumb context inductionHypothesis =>
      rcases exists_way source (crumb.fill node) (lowerAllDirectly source crumb.before)
        (lowerAllDirectly source crumb.after) node.value.identity
        (lowerDirectly source node).position with ⟨way, inside⟩
      have parent : ∀ other : Concrete, other.value = node.value →
          (lowerDirectly source other).position = (lowerDirectly source node).position →
            lowerDirectly source (crumb.fill other) = fill way (lowerDirectly source other) := by
        intro other same samePosition
        have shown : other.value.isVisible = true := same ▸ visited.1
        rw [← inside _ samePosition, Crumb.fill, lowerDirectly, lowerAllDirectly_append,
          lowerAllDirectly_cons, shown, if_pos rfl, List.singleton_append, same]
        exact build_congr source _ rfl (childInRole?_fill_congr crumb same)
      rcases inductionHypothesis (crumb.fill node) visited.2 with ⟨around, outside⟩
      refine ⟨way ++ around, fun other same samePosition => ?_⟩
      rw [fill, outside (crumb.fill other) rfl, parent other same samePosition, fill_append]
      rw [parent other same samePosition, parent node rfl rfl]
      exact read_fill_congr Label.position way samePosition

end Concrete

/-! ## Whole scripts -/

/-- A program that is put around a tree is one more node around everything in the tree. -/
theorem Lowering.exists_outer (position : Position) (around : Context Label) (kind : Kind) :
    ∃ outer : Context Label, ∀ tree : Tree, tree.kind = kind →
      wrapProgram position (fill around tree) = fill (around ++ outer) tree := by
  let sample : Tree := .plain kind position []
  have kinds : ∀ tree : Tree, tree.kind = kind →
      Tree.kind (fill around tree) = Tree.kind (fill around sample) := fun tree same =>
    read_fill_congr Label.kind around same
  by_cases program : Tree.kind (fill around sample) = .program
  · refine ⟨[], fun tree same => ?_⟩
    rw [wrapProgram, (kinds tree same).trans program, List.append_nil]
  · refine ⟨[{ value := { kind := .program, position }, before := [], after := [] }],
      fun tree same => ?_⟩
    rw [wrapProgram]
    split
    · rename_i isProgram
      exact False.elim (program ((kinds tree same).symm.trans isProgram))
    · rw [fill_append]
      rfl

namespace Script

open Concrete Lowering

def withRoot (script : Script) (root : Concrete) : Script := { script with root }

/-- What a visited node becomes has its place in the syntax tree. -/
theorem exists_around_syntaxTree (script : Script) (context : Context ConcreteLabel)
    (inner : Concrete) (visited : IsVisited context inner) :
    ∃ around : Context Label, ∀ other : Concrete, other.value = inner.value →
      (lowerDirectly script.source other).position =
        (lowerDirectly script.source inner).position →
      (lowerDirectly script.source other).kind = (lowerDirectly script.source inner).kind →
      Distinct (fill context other) →
        (script.withRoot (fill context other)).syntaxTree =
          fill around (lowerDirectly script.source other) := by
  rcases exists_around script.source context inner visited with ⟨around, inside⟩
  rcases exists_outer ((fill context inner).value.position script.source) around
    (lowerDirectly script.source inner).kind with ⟨outer, program⟩
  refine ⟨around ++ outer, fun other same position kind distinct => ?_⟩
  rw [syntaxTree, withRoot, lower?_eq _ distinct, Option.getD_some, value_fill_congr context same,
    inside other same position, program _ kind]

end Script

end CallbackLint
