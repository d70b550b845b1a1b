import CallbackLint.Proofs.Concrete.Replacement
import CallbackLint.Proofs.Concrete.WellFormed
import Mathlib.Logic.Relation

namespace CallbackLint

open Rose

/-!
# Comments and parentheses

A comment without a role in its parent can be deleted, and parentheses can be put
around a node, without a change to what a script becomes.

A hidden node without a role is not asked for.  Parentheses give way to what they wrap, so the
parent finds the same results, one of them under the fresh identity of the parentheses.
-/

namespace Concrete

open Lowering

/-! ## Deleting a comment -/

theorem unseen_dropComment (source : List UInt8) (crumb : Crumb ConcreteLabel)
    {comment : Concrete} (isComment : comment.value.type = "comment")
    (noRole : comment.value.field = none) :
    Unseen source [] (crumb.fill comment)
      (.node crumb.value (crumb.before ++ crumb.after)) where
  label := rfl
  lowered := by
    intro _
    have hidden : comment.value.isVisible = false := by
      rw [ConcreteLabel.isVisible, isComment, bne_self_eq_false, Bool.and_false]
    rw [Crumb.fill, lowerDirectly, lowerDirectly, lowerAllDirectly_append,
      lowerAllDirectly_append, lowerAllDirectly_cons, hidden, if_neg Bool.false_ne_true,
      List.nil_append]
    refine build_congr source _ rfl fun role => ?_
    have oldRole := childInRole?_fill crumb comment role
    have refused : (none == some role) = false := rfl
    rw [Crumb.fill, noRole, refused, if_neg Bool.false_ne_true] at oldRole
    rw [oldRole, childInRole?, children_node, List.find?_append]
  relevant := by
    rw [relevant_fill, relevant, relevantAll_append, List.nil_append]
    apply List.Sublist.subperm
    apply List.Sublist.map
    exact ((List.Sublist.refl _).append (List.sublist_append_right _ _)).cons_cons _

/-! ## Putting parentheses around a node -/

/-- A node in another role of its parent, or in none. -/
def withField (field : Option String) : Concrete → Concrete
  | .node label children => .node { label with field } children

theorem value_withField (field : Option String) (node : Concrete) :
    (node.withField field).value = { node.value with field } := by
  cases node with
  | node label children => rfl

/-- What a node becomes does not depend on its role in its parent. -/
theorem lowerDirectly_withField (source : List UInt8) (field : Option String) (node : Concrete) :
    lowerDirectly source (node.withField field) = lowerDirectly source node := by
  cases node with
  | node label children =>
      rw [withField, lowerDirectly, lowerDirectly]
      rfl

theorem identities_withField (field : Option String) (node : Concrete) :
    (node.withField field).preorder.map ConcreteLabel.identity =
      node.preorder.map ConcreteLabel.identity := by
  cases node with
  | node label children => rfl

theorem relevant_withField (field : Option String) (node : Concrete) :
    (node.withField field).relevant.map ConcreteLabel.identity =
      node.relevant.map ConcreteLabel.identity := by
  cases node with
  | node label children =>
      rw [withField, relevant, relevant]
      rfl

/-- A node is the child that its parent has in a role. -/
def IsFirstInRole (role : String) (crumb : Crumb ConcreteLabel) (node : Concrete) : Prop :=
  node.value.field = some role ∧ ∀ sibling ∈ crumb.before, sibling.value.field ≠ some role

instance (role : String) (crumb : Crumb ConcreteLabel) (node : Concrete) :
    Decidable (IsFirstInRole role crumb node) :=
  inferInstanceAs (Decidable (node.value.field = some role ∧
    ∀ sibling ∈ crumb.before, sibling.value.field ≠ some role))

/-- A pair of parentheses that can be put around a node.  It stands where the node stood, in
the role that the node had there. -/
structure Parenthesizes (crumb : Crumb ConcreteLabel) (node : Concrete)
    (layer : Crumb ConcreteLabel) : Prop where
  isVisible : node.value.isVisible = true
  parentheses : IsParentheses layer
  field : layer.value.field = node.value.field
  roles : ∀ role ∈ ["function", "arguments", "operator"], ¬ IsFirstInRole role crumb node

/-- Parentheses around a node, with what else stands between them. -/
def parenthesized (node : Concrete) (layer : Crumb ConcreteLabel) : Concrete :=
  layer.fill (node.withField none)

namespace Parenthesizes

variable {crumb layer : Crumb ConcreteLabel} {node : Concrete}

theorem isVisible_withField (around : Parenthesizes crumb node layer) :
    (node.withField none).value.isVisible = true := by
  rw [value_withField]
  exact around.isVisible

theorem lowerDirectly_eq (around : Parenthesizes crumb node layer) (source : List UInt8) :
    lowerDirectly source (node.parenthesized layer) = lowerDirectly source node := by
  rw [parenthesized, lowerDirectly_of_parentheses source around.parentheses
    around.isVisible_withField, lowerDirectly_withField]

theorem relevant_eq (around : Parenthesizes crumb node layer) :
    (node.parenthesized layer).relevant.map ConcreteLabel.identity =
      layer.value.identity :: node.relevant.map ConcreteLabel.identity := by
  have none : ∀ others : List Concrete, (∀ other ∈ others, other.value.isVisible = false) →
      relevantAll true others = [] := by
    intro others hidden
    induction others with
    | nil => rfl
    | cons other rest inductionHypothesis =>
        rw [relevantAll_cons, hidden other List.mem_cons_self,
          inductionHypothesis fun other member => hidden other (List.mem_cons_of_mem _ member)]
        rfl
  have wrapper : wrapperTypes.contains layer.value.type = true := by
    rw [around.parentheses.type]
    rfl
  have hidden := around.parentheses.hidden
  rw [parenthesized, Crumb.fill, relevant, wrapper, relevantAll_append, relevantAll_cons,
    around.isVisible_withField, if_pos rfl,
    none layer.before fun other member => hidden other (List.mem_append_left _ member),
    none layer.after fun other member => hidden other (List.mem_append_right _ member),
    List.nil_append, List.append_nil, List.map_cons, relevant_withField]

/-- The child in a role of a call or an operator is no other one. -/
theorem childInRole?_eq (around : Parenthesizes crumb node layer) {role : String}
    (listed : role ∈ ["function", "arguments", "operator"]) :
    childInRole? (crumb.fill (node.parenthesized layer)) role =
      childInRole? (crumb.fill node) role := by
  rw [childInRole?_fill, childInRole?_fill, parenthesized, Crumb.fill, value_node, around.field]
  by_cases same : node.value.field = some role
  · have earlier : ∃ sibling ∈ crumb.before, sibling.value.field = some role := by
      by_contra none
      refine around.roles role listed ⟨same, ?_⟩
      intro sibling member found
      exact none ⟨sibling, member, found⟩
    rcases earlier with ⟨sibling, member, found⟩
    have isSome : (crumb.before.find? fun child =>
        child.value.field == some role).isSome = true := by
      rw [List.find?_isSome]
      exact ⟨sibling, member, beq_iff_eq.mpr found⟩
    rcases Option.isSome_iff_exists.mp isSome with ⟨first, firstEq⟩
    rw [firstEq, Option.some_or, Option.some_or]
  · have refused : (node.value.field == some role) = false := beq_eq_false_iff_ne.mpr same
    rw [refused]
    rfl

end Parenthesizes

/-- The identity of the parentheses in the place of that of the node. -/
def exchange (old new identity : Int) : Int := if identity = old then new else identity

theorem exchange_of_ne {old identity : Int} (new : Int) (different : identity ≠ old) :
    exchange old new identity = identity := if_neg different

theorem exchange_self (old new : Int) : exchange old new old = new := if_pos rfl

/-- An exchange for a new identity keeps identities apart. -/
theorem eq_of_exchange_eq {old new first second : Int} (firstOld : first ≠ new)
    (secondOld : second ≠ new) (same : exchange old new first = exchange old new second) :
    first = second := by
  rw [exchange, exchange] at same
  split_ifs at same with isFirst isSecond isSecond
  · exact isFirst.trans isSecond.symm
  · exact False.elim (secondOld same.symm)
  · exact False.elim (firstOld same)
  · exact same

section Place

variable {crumb layer : Crumb ConcreteLabel} {node : Concrete}

/-- A sibling that matters has another identity than the node. -/
theorem IsSound.identity_ne (sound : IsSound (crumb.fill node))
    (isVisible : node.value.isVisible = true) (sibling : Concrete)
    (listed : sibling ∈ crumb.before ∨ sibling ∈ crumb.after)
    (matters : sibling.value.isVisible = true ∨
      wrapperTypes.contains crumb.value.type = false) :
    sibling.value.identity ≠ node.value.identity := by
  have root : node.value ∈ node.relevant := by
    cases node with
    | node label below =>
        rw [relevant]
        exact List.mem_cons_self
  rw [IsSound, relevant_fill, isVisible, if_pos rfl, List.map_append, List.map_append,
    List.nodup_append, List.nodup_append] at sound
  rcases sound with ⟨_, ⟨_, _, beyond⟩, ahead⟩
  intro same
  rcases listed with inBefore | inAfter
  · have found := List.mem_map_of_mem (f := ConcreteLabel.identity)
      (List.mem_cons_of_mem crumb.value (mem_relevantAll inBefore matters))
    exact ahead _ found _ (List.mem_append_left _ (List.mem_map_of_mem root)) same
  · have found := List.mem_map_of_mem (f := ConcreteLabel.identity)
      (mem_relevantAll inAfter matters)
    exact beyond _ (List.mem_map_of_mem root) _ found same.symm

/-- What the siblings become is found under the same identities. -/
theorem rename_lowerAllDirectly (source : List UInt8) {change : Int → Int}
    {nodes : List Concrete} (kept : ∀ node ∈ nodes, node.value.isVisible = true →
      change node.value.identity = node.value.identity) :
    rename change (lowerAllDirectly source nodes) = lowerAllDirectly source nodes := by
  rw [lowerAllDirectly_eq, rename, entriesOf, List.map_map, List.map_map, List.map_map]
  apply List.map_congr_left
  intro node member
  have among := List.mem_filter.mp member
  exact Prod.ext (kept node among.1 among.2) rfl

/-- The parent finds the same results, under the other identity. -/
theorem lowerAllDirectly_parenthesized (source : List UInt8)
    (around : Parenthesizes crumb node layer) (sound : IsSound (crumb.fill node)) :
    lowerAllDirectly source (crumb.before ++ node.parenthesized layer :: crumb.after) =
      rename (exchange node.value.identity layer.value.identity)
        (lowerAllDirectly source (crumb.before ++ node :: crumb.after)) := by
  have kept := fun (sibling : Concrete) listed visible => exchange_of_ne layer.value.identity
    (sound.identity_ne around.isVisible sibling listed (Or.inl visible))
  have earlier := rename_lowerAllDirectly source fun sibling member =>
    kept sibling (Or.inl member)
  have later := rename_lowerAllDirectly source fun sibling member =>
    kept sibling (Or.inr member)
  have apart : ∀ first second : Lowered, rename (exchange node.value.identity layer.value.identity)
      (first ++ second) = rename (exchange node.value.identity layer.value.identity) first ++
        rename (exchange node.value.identity layer.value.identity) second :=
    fun first second => List.map_append
  have shown : (node.parenthesized layer).value.isVisible = true := around.parentheses.isVisible
  rw [lowerAllDirectly_append, lowerAllDirectly_append, lowerAllDirectly_cons,
    lowerAllDirectly_cons, shown, around.isVisible, if_pos rfl, if_pos rfl, apart, apart, earlier,
    later, around.lowerDirectly_eq, rename, List.map_singleton, exchange_self]
  rfl

/-- A role of a node that is no wrapper is played by the same child, under its other
identity. -/
theorem identityInRole?_parenthesized (around : Parenthesizes crumb node layer)
    (sound : IsSound (crumb.fill node))
    (noWrapper : wrapperTypes.contains crumb.value.type = false) (role : String) :
    identityInRole? (crumb.fill (node.parenthesized layer)) role =
      (identityInRole? (crumb.fill node) role).map
        (exchange node.value.identity layer.value.identity) := by
  have kept := fun (sibling : Concrete) listed => exchange_of_ne layer.value.identity
    (sound.identity_ne around.isVisible sibling listed (Or.inr noWrapper))
  rw [identityInRole?, identityInRole?, childInRole?_fill, childInRole?_fill, parenthesized,
    Crumb.fill, value_node, around.field, Option.map_map]
  cases earlier : crumb.before.find? fun child => child.value.field == some role with
  | some first =>
      have listed := List.mem_of_find?_eq_some earlier
      rw [Option.some_or, Option.some_or, Option.map_some, Option.map_some]
      exact congrArg some (kept first (Or.inl listed)).symm
  | none =>
      rw [Option.none_or, Option.none_or]
      cases node.value.field == some role with
      | true =>
          rw [if_pos rfl, if_pos rfl, Option.map_some, Option.map_some]
          exact congrArg some (exchange_self _ _).symm
      | false =>
          rw [if_neg Bool.false_ne_true, if_neg Bool.false_ne_true]
          cases later : crumb.after.find? fun child => child.value.field == some role with
          | none => rfl
          | some first =>
              have listed := List.mem_of_find?_eq_some later
              rw [Option.map_some, Option.map_some]
              exact congrArg some (kept first (Or.inr listed)).symm

/-- The identities of the children that matter are relevant. -/
theorem identity_mem_relevant {node : Concrete} {child : Concrete} (member : child ∈ node.children)
    (matters : child.value.isVisible = true ∨ wrapperTypes.contains node.value.type = false) :
    child.value.identity ∈ node.relevant.map ConcreteLabel.identity := by
  rcases node with ⟨label, children⟩
  rw [relevant]
  exact List.mem_map_of_mem (List.mem_cons_of_mem _ (mem_relevantAll member matters))

theorem mem_lowerAllDirectly {source : List UInt8} {nodes : List Concrete}
    {result : Int × Option Tree} (member : result ∈ lowerAllDirectly source nodes) :
    ∃ node ∈ nodes, node.value.isVisible = true ∧ node.value.identity = result.1 := by
  rw [lowerAllDirectly_eq, entriesOf, List.map_map] at member
  rcases List.mem_map.mp member with ⟨node, among, same⟩
  have shown := List.mem_filter.mp among
  exact ⟨node, shown.1, shown.2, congrArg Prod.fst same⟩

theorem unseen_parenthesize (source : List UInt8)
    (around : Parenthesizes crumb node layer)
    (fresh : layer.value.identity ∉ (relevant (crumb.fill node)).map ConcreteLabel.identity) :
    Unseen source [layer.value.identity] (crumb.fill node)
      (crumb.fill (node.parenthesized layer)) where
  label := rfl
  lowered := by
    intro sound
    have alike : BuiltAlike source (exchange node.value.identity layer.value.identity)
        (lowerAllDirectly source (crumb.before ++ node :: crumb.after)) (crumb.fill node)
        (crumb.fill (node.parenthesized layer)) := {
      label := rfl
      callee := calleeOf?_congr source (congrArg _ (around.childInRole?_eq (by decide)))
      types := by
        intro role listed
        rw [typeInRole?, typeInRole?, around.childInRole?_eq (List.mem_cons_of_mem _ listed)]
      roles := by
        cases wrapper : wrapperTypes.contains crumb.value.type with
        | true => exact Or.inl wrapper
        | false =>
            refine Or.inr fun role _ =>
              ⟨identityInRole?_parenthesized around sound wrapper role, ?_⟩
            intro identity found child member same
            apply eq_of_exchange_eq _ _ same
            · rcases mem_lowerAllDirectly member with ⟨sibling, listed, shown, same⟩
              intro impossible
              apply fresh
              rw [← impossible, ← same]
              exact identity_mem_relevant listed (Or.inl shown)
            · rcases Option.map_eq_some_iff.mp found with ⟨sibling, first, same⟩
              intro impossible
              apply fresh
              rw [← impossible, ← same]
              exact identity_mem_relevant (List.mem_of_find?_eq_some first) (Or.inr wrapper) }
    rw [Crumb.fill, Crumb.fill, lowerDirectly, lowerDirectly,
      lowerAllDirectly_parenthesized source around sound]
    exact alike.build_eq
  relevant := by
    have shown : (node.parenthesized layer).value.isVisible = true :=
      around.parentheses.isVisible
    rw [relevant_fill, relevant_fill, shown, around.isVisible, if_pos rfl, if_pos rfl]
    simp only [List.map_append, around.relevant_eq]
    exact List.perm_middle.subperm

end Place

/-! ## Any number of edits -/

/-- One edit of a concrete tree that lowering does not see. -/
inductive Edit : Concrete → Concrete → Prop
  /-- A comment without a role is deleted, with everything below it. -/
  | dropComment (context : Context ConcreteLabel) (crumb : Crumb ConcreteLabel)
      (comment : Concrete) (isComment : comment.value.type = "comment")
      (noRole : comment.value.field = none) :
      Edit (fill (crumb :: context) comment)
        (fill context (.node crumb.value (crumb.before ++ crumb.after)))
  /-- Parentheses with a fresh identity are put around a node below the root. -/
  | parenthesize (context : Context ConcreteLabel) (crumb : Crumb ConcreteLabel)
      (node : Concrete) (layer : Crumb ConcreteLabel)
      (around : Parenthesizes crumb node layer)
      (fresh : layer.value.identity ∉
        (fill (crumb :: context) node).preorder.map ConcreteLabel.identity) :
      Edit (fill (crumb :: context) node)
        (fill (crumb :: context) (node.parenthesized layer))

/-- Trees that some edits lead to. -/
abbrev Edits : Concrete → Concrete → Prop := Relation.ReflTransGen Edit

theorem Edit.unseen {old new : Concrete} (source : List UInt8) (edit : Edit old new) :
    ∃ fresh : List Int, Unseen source fresh old new ∧ fresh.Nodup ∧
      ∀ identity ∈ fresh, identity ∉ old.relevant.map ConcreteLabel.identity := by
  cases edit with
  | dropComment context crumb comment isComment noRole =>
      have unseen := (unseen_dropComment source crumb isComment noRole).inside context
      exact ⟨[], unseen, List.nodup_nil, fun _ impossible => nomatch impossible⟩
  | parenthesize context crumb node layer around fresh =>
      have outside : layer.value.identity ∉
          (relevant (fill (crumb :: context) node)).map ConcreteLabel.identity := fun found =>
        fresh (((relevant_sublist _).map _).subset found)
      have here : layer.value.identity ∉
          (relevant (crumb.fill node)).map ConcreteLabel.identity := by
        intro found
        have among := ((relevant_sublist _).map ConcreteLabel.identity).subset found
        apply fresh
        rw [fill, preorder_fill, List.map_append, List.map_append]
        exact List.mem_append_left _ (List.mem_append_right _ among)
      refine ⟨[layer.value.identity], (unseen_parenthesize source around here).inside context,
        List.nodup_singleton _, ?_⟩
      intro identity member
      rw [List.mem_singleton.mp member]
      exact outside

/-- Edits keep the relevant identities different, the label of the root, and what the tree
becomes. -/
theorem Edits.unseen {old new : Concrete} (source : List UInt8) (edits : Edits old new)
    (sound : old.IsSound) :
    new.IsSound ∧ new.value = old.value ∧
      lowerDirectly source new = lowerDirectly source old := by
  induction edits with
  | refl => exact ⟨sound, rfl, rfl⟩
  | tail _ edit inductionHypothesis =>
      rcases inductionHypothesis with ⟨soundBefore, sameRoot, sameTree⟩
      rcases edit.unseen source with ⟨fresh, unseen, distinct, apart⟩
      exact ⟨unseen.isSound soundBefore distinct apart, unseen.label.trans sameRoot,
        (unseen.lowered soundBefore).trans sameTree⟩

end Concrete

namespace Script

open Concrete Lowering

/-- Two scripts become the same linked nodes, up to their names. -/
structure BecomesSame (script other : Script) : Prop where
  syntaxTree : other.syntaxTree = script.syntaxTree
  assembled : ∃ tree, script.assembled.1.Spells script.assembled.2 tree ∧
    other.assembled.1.Spells other.assembled.2 tree

/-- Deleting comments and putting parentheses around nodes, any number of times and anywhere
in a script, leaves what it becomes as it is. -/
theorem edited_becomesSame (script : Script) (edited : Concrete)
    (distinct : script.root.Distinct) (edits : Edits script.root edited) :
    script.BecomesSame { script with root := edited } := by
  rcases edits.unseen script.source distinct.isSound with ⟨sound, sameRoot, sameTree⟩
  have same : Script.syntaxTree { script with root := edited } = script.syntaxTree := by
    rw [syntaxTree, syntaxTree, lower?_eq_of_visited script.source sound.visited,
      lower?_eq script.source distinct, sameTree, sameRoot]
  refine ⟨same, script.syntaxTree, script.assembled_spells, ?_⟩
  rw [← same]
  exact assembled_spells { script with root := edited }

/-- A function whose body is a call. -/
def arrowToCall : Crumb ConcreteLabel where
  value := { type := "arrow_function", identity := 3, column := 4, start := 4, stop := 10 }
  before := [.node { type := "identifier", field := some "parameter", identity := 4,
                     column := 4, start := 4, stop := 5 } []]
  after := []

def arrowCall : Concrete :=
  .node { type := "call_expression", field := some "body", identity := 5,
          column := 7, start := 7, stop := 10 } [
    .node { type := "identifier", field := some "function", identity := 6,
            column := 7, start := 7, stop := 8 } [],
    .node { type := "arguments", field := some "arguments", identity := 7,
            column := 8, start := 8, stop := 10 } []]

def arrowComment : Concrete := .node { type := "comment", identity := 2, stop := 4 } []

/-- A comment and a function whose body is a call. -/
def commentedArrow : Script where
  source := "/**/x=>y()".toUTF8.toList
  root := .node { type := "program", identity := 1, stop := 10 }
    [arrowComment, arrowToCall.fill arrowCall]

def bodyParentheses : Crumb ConcreteLabel where
  value := { type := "parenthesized_expression", field := some "body", identity := 8 }
  before := [.node { type := "(", named := false, identity := 9 } [], arrowComment]
  after := []

/-- The function without the comment, which is now between the parentheses around the
body. -/
def parenthesizedArrow : Concrete :=
  .node { type := "program", identity := 1, stop := 10 }
    [arrowToCall.fill (arrowCall.parenthesized bodyParentheses)]

theorem edits_parenthesizedArrow : Edits commentedArrow.root parenthesizedArrow := by
  have dropped := Edit.dropComment []
    { value := { type := "program", identity := 1, stop := 10 }, before := []
      after := [arrowToCall.fill arrowCall] } arrowComment rfl rfl
  have around : Parenthesizes arrowToCall arrowCall bodyParentheses :=
    ⟨by decide, ⟨rfl, rfl, by decide⟩, rfl, by decide⟩
  have wrapped := Edit.parenthesize
    [{ value := { type := "program", identity := 1, stop := 10 }, before := [], after := [] }]
    arrowToCall arrowCall bodyParentheses around (by decide)
  exact (Relation.ReflTransGen.single dropped).tail wrapped

theorem edited_becomesSame_commentedArrow :
    commentedArrow.root.Distinct ∧ Edits commentedArrow.root parenthesizedArrow ∧
      commentedArrow.BecomesSame { commentedArrow with root := parenthesizedArrow } :=
  ⟨by decide, edits_parenthesizedArrow,
    edited_becomesSame commentedArrow parenthesizedArrow (by decide) edits_parenthesizedArrow⟩

end Script

end CallbackLint
