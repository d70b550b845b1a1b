import CallbackLint.Proofs.Concrete.Shape
import Mathlib.Data.List.Perm.Subperm

namespace CallbackLint

open Rose

/-!
# Replacing a part of a concrete tree

A node is built from its label, from the children that it has in certain roles, and from
what its visible children become, each under its identity.  The identities themselves do not
matter as long as different children have different ones.

So lowering does not see that a part of a tree is replaced by one with the same label at
its root that becomes the same.  The identities that have to differ for this are those of the
visited nodes and of the children that play a part in their roles.
-/

namespace Lowering

/-! ## Other identities for the children -/

def rename (change : Int → Int) (lowered : Lowered) : Lowered :=
  lowered.map fun child => (change child.1, child.2)

theorem present_rename (change : Int → Int) (lowered : Lowered) :
    present (rename change lowered) = present lowered := by
  rw [present, rename, List.filterMap_map]
  rfl

variable {change : Int → Int}

/-- The last child of an identity is found at the same place under its new identity. -/
theorem placeOf_rename {identity : Int} (place : Nat) (found : Option Nat) {lowered : Lowered}
    (faithful : ∀ child ∈ lowered, change child.1 = change identity → child.1 = identity) :
    placeOf (change identity) place found (rename change lowered) =
      placeOf identity place found lowered := by
  induction lowered generalizing place found with
  | nil => rfl
  | cons child rest inductionHypothesis =>
      rcases child with ⟨own, result⟩
      have same : change own = change identity ↔ own = identity :=
        ⟨faithful (own, result) List.mem_cons_self, congrArg change⟩
      have later := fun place found => inductionHypothesis place found fun child member =>
        faithful child (List.mem_cons_of_mem _ member)
      cases result with
      | none =>
          rw [rename, List.map_cons, placeOf, placeOf, ← rename, later]
          simp only [same]
      | some tree =>
          rw [rename, List.map_cons, placeOf, placeOf, ← rename, later]
          simp only [same]

/-- The children that have an identity, or do not have it, are the same ones. -/
theorem filter_rename {value : Option Int} {lowered : Lowered} (chosen : Bool → Bool)
    (faithful : ∀ identity, value = some identity → ∀ child ∈ lowered,
      change child.1 = change identity → child.1 = identity) :
    (rename change lowered).filter (fun child => chosen (value.map change == some child.1)) =
      rename change (lowered.filter fun child => chosen (value == some child.1)) := by
  rw [rename, List.filter_map, rename]
  apply congrArg
  apply List.filter_congr
  intro child member
  apply congrArg chosen
  rw [Bool.eq_iff_iff, beq_iff_eq, beq_iff_eq]
  cases value with
  | none =>
      constructor
      · intro impossible
        cases impossible
      · intro impossible
        cases impossible
  | some identity =>
      rw [Option.map_some, Option.some.injEq, Option.some.injEq]
      constructor
      · exact fun same => (faithful identity rfl child member same.symm).symm
      · exact fun same => congrArg change same

/-- Two nodes are built alike: they have the same label and the same children in the roles
that decide what they are, and in the other roles the children that became the same. -/
structure BuiltAlike (source : List UInt8) (change : Int → Int) (lowered : Lowered)
    (old new : Concrete) : Prop where
  label : new.value = old.value
  callee : calleeOf? source new = calleeOf? source old
  types : ∀ role ∈ ["arguments", "operator"], new.typeInRole? role = old.typeInRole? role
  /-- A wrapper asks for no child in a role. -/
  roles : wrapperTypes.contains old.value.type = true ∨ ∀ role ∈ ["body", "value"],
    new.identityInRole? role = (old.identityInRole? role).map change ∧
      ∀ identity, old.identityInRole? role = some identity → ∀ child ∈ lowered,
        change child.1 = change identity → child.1 = identity

theorem BuiltAlike.build_eq {source : List UInt8} {lowered : Lowered} {old new : Concrete}
    (alike : BuiltAlike source change lowered old new) :
    build source new (rename change lowered) = build source old lowered := by
  have isCallEq : isCall new = isCall old := by
    rw [isCall, isCall, alike.label, alike.types "arguments" (by decide)]
  have plainEq : plainKind new = plainKind old := by
    rw [plainKind, plainKind, alike.label, alike.types "operator" (by decide)]
  rw [build, build, alike.label, isCallEq, plainEq, alike.callee, present_rename]
  by_cases wrapper : wrapperTypes.contains old.value.type = true
  · rw [if_pos wrapper, if_pos wrapper]
  · rcases alike.roles with isWrapper | roles
    · exact False.elim (wrapper isWrapper)
    have bodyEq : bodyPlace? new (rename change lowered) = bodyPlace? old lowered := by
      have body := roles "body" (by decide)
      rw [bodyPlace?, bodyPlace?, body.1]
      cases identity : old.identityInRole? "body" with
      | none => rfl
      | some identity => exact placeOf_rename 0 none (body.2 _ identity)
    have caseEq : buildCase new (rename change lowered) = buildCase old lowered := by
      have value := roles "value" (by decide)
      funext position
      have values := filter_rename id value.2
      have statements := filter_rename (!·) value.2
      simp only [id] at values
      simp only [buildCase, value.1, bne, values, statements, present_rename]
    rw [bodyEq, caseEq]

end Lowering

namespace Concrete

open Lowering

/-! ## The identities that matter -/

mutual

/-- The labels of the nodes that lowering visits, and of the hidden children that can play
a part in a role, because their parent is no wrapper. -/
def relevant : Concrete → List ConcreteLabel
  | .node label children => label :: relevantAll (wrapperTypes.contains label.type) children

def relevantAll (wrapped : Bool) : List Concrete → List ConcreteLabel
  | [] => []
  | .node label children :: rest =>
    (if label.isVisible then relevant (.node label children)
      else if wrapped then [] else [label]) ++ relevantAll wrapped rest

end

theorem relevantAll_cons (wrapped : Bool) (node : Concrete) (rest : List Concrete) :
    relevantAll wrapped (node :: rest) =
      (if node.value.isVisible then node.relevant else if wrapped then [] else [node.value]) ++
        relevantAll wrapped rest := by
  cases node with
  | node label children => rw [relevantAll, value_node]

theorem relevantAll_append (wrapped : Bool) (first second : List Concrete) :
    relevantAll wrapped (first ++ second) =
      relevantAll wrapped first ++ relevantAll wrapped second := by
  induction first with
  | nil => rfl
  | cons node rest inductionHypothesis =>
      rw [List.cons_append, relevantAll_cons, relevantAll_cons, inductionHypothesis,
        List.append_assoc]

/-- The relevant labels inside a node among its siblings. -/
theorem relevant_fill (crumb : Crumb ConcreteLabel) (node : Concrete) :
    relevant (crumb.fill node) =
      crumb.value :: relevantAll (wrapperTypes.contains crumb.value.type) crumb.before ++
        ((if node.value.isVisible then node.relevant
          else if wrapperTypes.contains crumb.value.type then [] else [node.value]) ++
            relevantAll (wrapperTypes.contains crumb.value.type) crumb.after) := by
  rw [Crumb.fill, relevant, relevantAll_append, relevantAll_cons]
  rfl

mutual

theorem relevant_sublist : (node : Concrete) → node.relevant.Sublist node.preorder
  | .node label children => by
      rw [relevant, preorder]
      exact (relevantAll_sublist _ children).cons_cons label

theorem relevantAll_sublist (wrapped : Bool) : (nodes : List Concrete) →
    (relevantAll wrapped nodes).Sublist (preorderAll nodes)
  | [] => List.Sublist.refl _
  | .node label children :: rest => by
      have whole := relevant_sublist (.node label children)
      have root : [label].Sublist (preorder (.node label children)) :=
        (List.nil_sublist _).cons_cons label
      rw [relevantAll, preorderAll]
      apply List.Sublist.append _ (relevantAll_sublist wrapped rest)
      split_ifs
      · exact whole
      · exact List.nil_sublist _
      · exact root

end

mutual

/-- The visited nodes are relevant. -/
theorem visited_sublist_relevant : (node : Concrete) →
    (node.visible.preorder.map Rose.value).Sublist node.relevant
  | .node label children => by
      rw [visible, preorder, relevant, List.map_cons]
      exact (visitedAll_sublist_relevant _ children).cons_cons label

theorem visitedAll_sublist_relevant (wrapped : Bool) : (nodes : List Concrete) →
    ((preorderAll (visibleAll nodes)).map Rose.value).Sublist (relevantAll wrapped nodes)
  | [] => List.Sublist.refl _
  | .node label children :: rest => by
      have later := visitedAll_sublist_relevant wrapped rest
      rw [visibleAll, relevantAll]
      cases label.isVisible with
      | false => exact later.trans (List.sublist_append_right _ _)
      | true =>
          rw [if_pos rfl, if_pos rfl, preorderAll, List.map_append]
          exact (visited_sublist_relevant (.node label children)).append later

end

/-- The children of a node that is no wrapper are relevant. -/
theorem map_value_sublist_relevantAll (children : List Concrete) :
    (children.map Rose.value).Sublist (relevantAll false children) := by
  induction children with
  | nil => exact List.Sublist.refl _
  | cons child rest inductionHypothesis =>
      have root : [child.value].Sublist child.relevant := by
        cases child with
        | node label below =>
            rw [relevant]
            exact (List.nil_sublist _).cons_cons label
      rw [relevantAll_cons, List.map_cons]
      have first : [child.value].Sublist (if child.value.isVisible then child.relevant
          else if false = true then [] else [child.value]) := by
        cases child.value.isVisible with
        | true => exact root
        | false => exact List.Sublist.refl _
      exact first.append inductionHypothesis

theorem mem_relevantAll {wrapped : Bool} {child : Concrete} {children : List Concrete}
    (member : child ∈ children) (matters : child.value.isVisible = true ∨ wrapped = false) :
    child.value ∈ relevantAll wrapped children := by
  rcases matters with shown | noWrapper
  · rcases List.append_of_mem member with ⟨before, after, split⟩
    rw [split, relevantAll_append, relevantAll_cons, shown, if_pos rfl]
    apply List.mem_append_right
    apply List.mem_append_left
    cases child with
    | node label below =>
        rw [relevant]
        exact List.mem_cons_self
  · rw [noWrapper]
    exact (map_value_sublist_relevantAll children).subset (List.mem_map_of_mem member)

/-- The relevant identities are all different. -/
def IsSound (node : Concrete) : Prop := (node.relevant.map ConcreteLabel.identity).Nodup

theorem Distinct.isSound {node : Concrete} (distinct : node.Distinct) : node.IsSound :=
  List.Nodup.sublist ((relevant_sublist node).map ConcreteLabel.identity) distinct

theorem IsSound.visited {node : Concrete} (sound : node.IsSound) :
    (node.visible.preorder.map fun visited => visited.value.identity).Nodup := by
  have among := (visited_sublist_relevant node).map ConcreteLabel.identity
  rw [List.map_map] at among
  exact List.Nodup.sublist among sound

/-! ## Children in roles -/

theorem childInRole?_fill (crumb : Crumb ConcreteLabel) (node : Concrete) (role : String) :
    childInRole? (crumb.fill node) role =
      (crumb.before.find? fun child => child.value.field == some role).or
        (if node.value.field == some role then some node
          else crumb.after.find? fun child => child.value.field == some role) := by
  rw [childInRole?, Crumb.fill, children_node, List.find?_append, List.find?_cons]
  cases node.value.field == some role <;> rfl

/-- A role is played by a child of the same label if a child is replaced by one of the same
label. -/
theorem childInRole?_fill_congr (crumb : Crumb ConcreteLabel) {old new : Concrete}
    (same : new.value = old.value) (role : String) :
    (childInRole? (crumb.fill new) role).map Rose.value =
      (childInRole? (crumb.fill old) role).map Rose.value := by
  rw [childInRole?_fill, childInRole?_fill, same, Option.map_or, Option.map_or]
  cases old.value.field == some role with
  | false => rfl
  | true => rw [if_pos rfl, if_pos rfl, Option.map_some, Option.map_some, same]

theorem calleeOf?_congr (source : List UInt8) {old new : Concrete}
    (same : (new.childInRole? "function").map Rose.value =
      (old.childInRole? "function").map Rose.value) :
    calleeOf? source new = calleeOf? source old := by
  rw [calleeOf?, calleeOf?]
  cases callee : old.childInRole? "function" with
  | none =>
      rw [callee, Option.map_none, Option.map_eq_none_iff] at same
      rw [same]
  | some child =>
      rw [callee, Option.map_some, Option.map_eq_some_iff] at same
      rcases same with ⟨other, found, same⟩
      rw [found]
      simp only [same]

theorem typeInRole?_eq (node : Concrete) (role : String) :
    node.typeInRole? role = ((node.childInRole? role).map Rose.value).map ConcreteLabel.type := by
  rw [typeInRole?, Option.map_map]
  rfl

theorem identityInRole?_eq (node : Concrete) (role : String) :
    node.identityInRole? role =
      ((node.childInRole? role).map Rose.value).map ConcreteLabel.identity := by
  rw [identityInRole?, Option.map_map]
  rfl

/-- Nodes whose children have the same labels in all roles are built alike. -/
theorem build_congr (source : List UInt8) (lowered : Lowered) {old new : Concrete}
    (label : new.value = old.value)
    (roles : ∀ role, (new.childInRole? role).map Rose.value =
      (old.childInRole? role).map Rose.value) :
    build source new lowered = build source old lowered := by
  have alike : BuiltAlike source id lowered old new := {
    label
    callee := calleeOf?_congr source (roles "function")
    types := by
      intro role _
      rw [typeInRole?_eq, typeInRole?_eq, roles role]
    roles := by
      refine Or.inr fun role _ => ⟨?_, fun _ _ _ _ same => same⟩
      rw [identityInRole?_eq, identityInRole?_eq, roles role, Option.map_id]
      rfl }
  have unchanged : rename id lowered = lowered := List.map_id lowered
  have same := alike.build_eq
  rwa [unchanged] at same

/-! ## What lowering does not see -/

theorem lowerAllDirectly_cons (source : List UInt8) (node : Concrete) (rest : List Concrete) :
    lowerAllDirectly source (node :: rest) =
      (if node.value.isVisible then [(node.value.identity, some (lowerDirectly source node))]
        else []) ++ lowerAllDirectly source rest := by
  cases node with
  | node label children =>
      rw [lowerAllDirectly, value_node]
      cases label.isVisible <;> rfl

theorem lowerAllDirectly_append (source : List UInt8) (first second : List Concrete) :
    lowerAllDirectly source (first ++ second) =
      lowerAllDirectly source first ++ lowerAllDirectly source second := by
  simp only [lowerAllDirectly_eq, List.filter_append, entriesOf, List.map_append]

/-- Lowering does not see that a tree is replaced by another one, as long as the relevant
identities differ, and they still do afterwards if the fresh ones are new. -/
structure Unseen (source : List UInt8) (fresh : List Int) (old new : Concrete) : Prop where
  label : new.value = old.value
  lowered : old.IsSound → lowerDirectly source new = lowerDirectly source old
  relevant : (new.relevant.map ConcreteLabel.identity).Subperm
    (fresh ++ old.relevant.map ConcreteLabel.identity)

namespace Unseen

variable {source : List UInt8} {fresh : List Int} {old new : Concrete}

/-- Nor does it if this happens among other nodes. -/
theorem beside (unseen : Unseen source fresh old new) (crumb : Crumb ConcreteLabel) :
    Unseen source fresh (crumb.fill old) (crumb.fill new) where
  label := rfl
  lowered := by
    intro sound
    have children : lowerAllDirectly source (crumb.before ++ new :: crumb.after) =
        lowerAllDirectly source (crumb.before ++ old :: crumb.after) := by
      rw [lowerAllDirectly_append, lowerAllDirectly_append, lowerAllDirectly_cons,
        lowerAllDirectly_cons, unseen.label]
      cases visible : old.value.isVisible with
      | false => rfl
      | true =>
          have inside : old.IsSound := by
            rw [IsSound, relevant_fill, visible, if_pos rfl] at sound
            apply List.Nodup.sublist _ sound
            apply List.Sublist.map
            exact (List.sublist_append_left _ _).trans (List.sublist_append_right _ _)
          rw [unseen.lowered inside]
    rw [Crumb.fill, Crumb.fill, lowerDirectly, lowerDirectly, children]
    exact build_congr source _ rfl (childInRole?_fill_congr crumb unseen.label)
  relevant := by
    rw [relevant_fill, relevant_fill, unseen.label]
    cases visible : old.value.isVisible with
    | false => exact (List.sublist_append_right _ _).subperm
    | true =>
        rw [if_pos rfl, if_pos rfl, List.map_append, List.map_append, List.map_append,
          List.map_append]
        apply List.Subperm.trans _ (List.perm_append_comm_assoc _ _ _).subperm
        rw [← List.append_assoc fresh]
        exact (List.Subperm.refl _).append (unseen.relevant.append (List.Subperm.refl _))

/-- Nor does it anywhere in a larger tree. -/
theorem inside (unseen : Unseen source fresh old new) (context : Context ConcreteLabel) :
    Unseen source fresh (fill context old) (fill context new) := by
  induction context generalizing old new with
  | nil => exact unseen
  | cons crumb context inductionHypothesis => exact inductionHypothesis (unseen.beside crumb)

theorem isSound (unseen : Unseen source fresh old new) (sound : old.IsSound)
    (distinct : fresh.Nodup) (apart : ∀ identity ∈ fresh,
      identity ∉ old.relevant.map ConcreteLabel.identity) : new.IsSound := by
  have together : (fresh ++ old.relevant.map ConcreteLabel.identity).Nodup :=
    List.nodup_append.mpr ⟨distinct, sound, fun identity member other found same =>
      apart identity member (same ▸ found)⟩
  rcases unseen.relevant with ⟨part, perm, among⟩
  exact perm.nodup_iff.mp (together.sublist among)

end Unseen

end Concrete

end CallbackLint
