import CallbackLint.Proofs.Rule.Recursion

namespace CallbackLint

open Rose

/-!
# Ladders on which a call stands alike

The tests read less of a ladder than it shows.  Of the node after a statement in a list
they ask whether it is a `return`, of the last operand of an `&&` and of the last statement of a
body whether anything comes after it, and of a place whether it is that of a body.

So a call has the same placement on ladders that agree in this much.  Then nodes without
calls may be dropped from a tree wherever no test looks for a node after the one before
them.
-/

namespace Rung

/-- The node above is a function and the node below is its body. -/
def isFunctionBody (rung : Rung) : Bool := rung.isFunction && rung.isBody

/-- Two rungs look the same to every test, below the rungs `above`.  They may differ in whatever no
test asks for: what comes next is looked at in three cases only. -/
structure Alike (above : List Rung) (rung other : Rung) : Prop where
  kind : other.upper.kind = rung.upper.kind
  lower : other.lower = rung.lower
  body : rung.upper.kind = .function → other.isBody = rung.isBody
  /-- What comes after the last operand of an `&&` matters only if that is a call. -/
  operand : rung.upper.kind = .logicalAnd → rung.lower = .call →
    other.next.isNone = rung.next.isNone
  /-- Whether a `return` comes next matters only for expression statements. -/
  statement : rung.upper.kind.isStatementList = true → rung.lower = .expressionStatement →
    (other.next == some .returnStatement) = (rung.next == some .returnStatement)
  /-- So does the end of a block, and only if that is the body of a function. -/
  tail : rung.upper.kind = .block → rung.lower = .expressionStatement →
    above.head?.any isFunctionBody = true → other.next.isNone = rung.next.isNone

/-- The ladders of a node of a given kind in two trees look the same to every test. -/
inductive AllAlike : Kind → List Rung → List Rung → Prop
  | nil (kind : Kind) : AllAlike kind [] []
  | cons {kind : Kind} {rung other : Rung} {above others : List Rung}
      (here : Alike above rung other) (lower : rung.lower = kind)
      (rest : AllAlike rung.upper.kind above others) :
      AllAlike kind (rung :: above) (other :: others)

theorem Alike.refl (above : List Rung) (rung : Rung) : Alike above rung rung :=
  ⟨rfl, rfl, fun _ => rfl, fun _ _ => rfl, fun _ _ => rfl, fun _ _ _ => rfl⟩

namespace Alike

variable {above : List Rung} {rung other : Rung}

theorem isFunction_eq (alike : Alike above rung other) : other.isFunction = rung.isFunction := by
  rw [isFunction, isFunction, alike.kind]

theorem isFunctionBody_eq (alike : Alike above rung other) :
    other.isFunctionBody = rung.isFunctionBody := by
  rw [isFunctionBody, isFunctionBody, alike.isFunction_eq]
  cases found : rung.isFunction with
  | false => rfl
  | true => rw [alike.body (beq_iff_eq.mp found)]

end Alike

namespace AllAlike

variable {kind : Kind} {rungs others : List Rung}

/-- The ladder of a place looks the same as itself. -/
theorem refl_ladder (kind : Kind) (context : Context Label) :
    AllAlike kind (ladder kind context) (ladder kind context) := by
  induction context generalizing kind with
  | nil => exact .nil kind
  | cons crumb context inductionHypothesis =>
      exact .cons (.refl _ _) rfl (inductionHypothesis crumb.value.kind)

/-- The innermost function is on both ladders at the same height, with the same child on the
way. -/
theorem find? (alike : AllAlike kind rungs others) :
    (rungs.find? isFunction = none ∧ others.find? isFunction = none) ∨
      ∃ rung other, rungs.find? isFunction = some rung ∧ others.find? isFunction = some other ∧
        other.isImplicitReturn = rung.isImplicitReturn := by
  induction alike with
  | nil => exact Or.inl ⟨rfl, rfl⟩
  | @cons kind rung other above others here _ _ inductionHypothesis =>
      cases found : rung.isFunction with
      | true =>
          have otherFound := here.isFunction_eq.trans found
          refine Or.inr ⟨rung, other, List.find?_cons_of_pos found,
            List.find?_cons_of_pos otherFound, ?_⟩
          rw [isImplicitReturn, isImplicitReturn, here.body (beq_iff_eq.mp found), here.lower]
      | false =>
          have otherFound := here.isFunction_eq.trans found
          rw [List.find?_cons_of_neg (ne_true_of_eq_false found),
            List.find?_cons_of_neg (ne_true_of_eq_false otherFound)]
          exact inductionHypothesis

theorem isReturnOperand_eq (alike : AllAlike kind rungs others) :
    isReturnOperand others = isReturnOperand rungs := by
  cases alike with
  | nil => rfl
  | cons here => rw [isReturnOperand, isReturnOperand, here.kind]

theorem isFollowedByReturn_eq (alike : AllAlike kind rungs others) :
    isFollowedByReturn others = isFollowedByReturn rungs := by
  cases alike with
  | nil => rfl
  | @cons _ statement _ _ _ here _ rest =>
      cases rest with
      | nil => rfl
      | @cons _ list _ _ _ there lower =>
          rw [isFollowedByReturn, isFollowedByReturn, here.kind, there.kind]
          cases isStatement : statement.upper.kind == .expressionStatement with
          | false => rfl
          | true =>
              cases isList : list.upper.kind.isStatementList with
              | false => rfl
              | true => rw [there.statement isList (lower.trans (beq_iff_eq.mp isStatement))]

theorem isGuarded_eq (alike : AllAlike .call rungs others) :
    isGuarded others = isGuarded rungs := by
  cases alike with
  | nil => rfl
  | @cons _ operation _ _ _ here lower rest =>
      cases rest with
      | nil => rfl
      | @cons _ statement _ _ _ there =>
          rw [isGuarded, isGuarded, here.kind, there.kind]
          cases isAnd : operation.upper.kind == .logicalAnd with
          | false => rfl
          | true => rw [here.operand (beq_iff_eq.mp isAnd) lower]

/-- The rung above the block decides whether the end of the block matters. -/
theorem any_head?_eq (alike : AllAlike kind rungs others) :
    others.head?.any isFunctionBody = rungs.head?.any isFunctionBody := by
  cases alike with
  | nil => rfl
  | cons here => exact here.isFunctionBody_eq

theorem isFunctionTail_eq (alike : AllAlike kind rungs others) :
    isFunctionTail others = isFunctionTail rungs := by
  cases alike with
  | nil => rfl
  | @cons _ statement _ _ _ here _ rest =>
      cases rest with
      | nil => rfl
      | @cons _ block _ above beyond there lower rest =>
          have top : (beyond.head?.any fun function => function.isFunction && function.isBody) =
              above.head?.any fun function => function.isFunction && function.isBody :=
            rest.any_head?_eq
          rw [isFunctionTail, isFunctionTail, here.kind, there.kind, top]
          cases isStatement : statement.upper.kind == .expressionStatement with
          | false => rfl
          | true =>
              cases isBlock : block.upper.kind == .block with
              | false => rfl
              | true =>
                  cases isBody : above.head?.any fun function =>
                      function.isFunction && function.isBody with
                  | false => rw [Bool.and_false, Bool.and_false]
                  | true =>
                      rw [there.tail (beq_iff_eq.mp isBlock)
                        (lower.trans (beq_iff_eq.mp isStatement)) isBody]

theorem placement_eq (alike : AllAlike .call rungs others) :
    placement others = placement rungs := by
  rw [placement, placement]
  rcases alike.find? with ⟨none, otherNone⟩ | ⟨rung, other, found, otherFound, implicit⟩
  · rw [none, otherNone]
  · rw [found, otherFound]
    simp only [implicit, alike.isReturnOperand_eq, alike.isFollowedByReturn_eq,
      alike.isGuarded_eq, alike.isFunctionTail_eq]

end AllAlike

end Rung

/-! ## Trees in which the same calls are found -/

namespace Tree

/-- No call of an identifier is found in a tree. -/
def IsSilent (tree : Tree) : Prop := ∀ rungs, sightings rungs tree = []

/-- The same calls are found in two trees, on ladders that look the same. -/
structure SeenAlike (old new : Tree) : Prop where
  kind : new.kind = old.kind
  sightings : ∀ rungs others, Rung.AllAlike old.kind rungs others →
    Tree.sightings others new = Tree.sightings rungs old

/-- The trees of a list before and after a change: each of them becomes another one, or it is
dropped. -/
abbrev Change := List (Tree × Option Tree)

def old (change : Change) : List Tree := change.map Prod.fst

def new (change : Change) : List Tree := change.filterMap Prod.snd

/-- Trees are dropped only if there is no call in them, and otherwise they are seen alike. -/
def IsQuiet (change : Change) : Prop :=
  ∀ tree new?, (tree, new?) ∈ change → (∃ other, new? = some other ∧ SeenAlike tree other) ∨
    new? = none ∧ tree.IsSilent

/-- Trees that stay do not look for what was dropped after them.  The lists stand below
`upper` and `other`, and before a node of kind `next`, if any. -/
def IsUnnoticed (change : Change) (upper other : Label) (above : List Rung)
    (next : Option Kind) : Prop :=
  ∀ left tree stays right, change = left ++ (tree, some stays) :: right →
    Rung.Alike above
      { upper, place := (old left).length, lower := tree.kind
        next := ((old right).head?.map Tree.kind).or next }
      { upper := other, place := (new left).length, lower := stays.kind
        next := ((new right).head?.map Tree.kind).or next }

/-- The calls of the trees are the same before and after a quiet change that is not
noticed. -/
theorem sightingsAll_change {upper other : Label} {rungs others : List Rung} {next : Option Kind}
    (alike : Rung.AllAlike upper.kind rungs others) (done rest : Change) (quiet : IsQuiet rest)
    (unnoticed : IsUnnoticed (done ++ rest) upper other rungs next) :
    sightingsAll other others (new done).length next (new rest) =
      sightingsAll upper rungs (old done).length next (old rest) := by
  -- Trees that are done move over from `rest` to `done`.
  induction rest generalizing done with
  | nil => rfl
  | cons pair rest inductionHypothesis =>
      rcases pair with ⟨tree, new?⟩
      have later := inductionHypothesis (done ++ [(tree, new?)])
        (fun tree new? member => quiet tree new? (List.mem_cons_of_mem _ member))
        (by rwa [List.append_assoc])
      rcases quiet tree new? List.mem_cons_self with ⟨stays, same, seen⟩ | ⟨gone, silent⟩
      · rw [same] at later unnoticed ⊢
        have here := unnoticed done tree stays rest rfl
        have first := seen.sightings _ _ (Rung.AllAlike.cons here rfl alike)
        have oldLength : (old (done ++ [(tree, some stays)])).length = (old done).length + 1 := by
          rw [old, List.map_append, List.length_append]
          rfl
        have newLength : (new (done ++ [(tree, some stays)])).length = (new done).length + 1 := by
          rw [new, List.filterMap_append, List.length_append]
          rfl
        rw [oldLength, newLength] at later
        change sightingsAll other others _ next (stays :: new rest) =
          sightingsAll upper rungs _ next (tree :: old rest)
        rw [sightingsAll, sightingsAll, later]
        exact congrArg (· ++ _) first
      · rw [gone] at later ⊢
        have oldLength : (old (done ++ [(tree, none)])).length = (old done).length + 1 := by
          rw [old, List.map_append, List.length_append]
          rfl
        have newLength : new (done ++ [(tree, none)]) = new done := by
          rw [new, List.filterMap_append]
          exact List.append_nil _
        rw [oldLength, newLength] at later
        change sightingsAll other others _ next (new rest) =
          sightingsAll upper rungs _ next (tree :: old rest)
        rw [sightingsAll, silent, List.nil_append, later]

/-- Two nodes are seen alike if they are the same call, or no call, over lists that differ by
such a change. -/
theorem SeenAlike.node {label other : Label} (kind : other.kind = label.kind)
    (call : label.kind = .call → other.callee = label.callee ∧ other.position = label.position)
    (change : Change) (quiet : IsQuiet change)
    (unnoticed : ∀ rungs, IsUnnoticed change label other rungs none) :
    SeenAlike (.node label (old change)) (.node other (new change)) where
  kind := kind
  sightings := by
    intro rungs others alike
    have below := sightingsAll_change alike [] change quiet (unnoticed rungs)
    have own : other.sighting? others = label.sighting? rungs := by
      by_cases isCall : label.kind = .call
      · have placement : Rung.placement others = Rung.placement rungs :=
          Rung.AllAlike.placement_eq (isCall ▸ alike)
        rw [Label.sighting?, Label.sighting?, kind, (call isCall).1, (call isCall).2, placement]
      · rw [Label.sighting?_of_not_call isCall, Label.sighting?_of_not_call (kind ▸ isCall)]
    rw [Tree.sightings, Tree.sightings, own]
    exact congrArg (_ ++ ·) below

/-! ## Lists that stay -/

def unchanged (trees : List Tree) : Change := trees.map fun tree => (tree, some tree)

theorem old_unchanged (trees : List Tree) : old (unchanged trees) = trees := by
  rw [old, unchanged, List.map_map]
  exact List.map_id trees

theorem new_unchanged (trees : List Tree) : new (unchanged trees) = trees := by
  rw [new, unchanged, List.filterMap_map]
  exact List.filterMap_some

/-- Nobody notices that the node above is another one of the same kind and body. -/
theorem isUnnoticed_unchanged {label other : Label} (kind : other.kind = label.kind)
    (body : other.body = label.body) (trees : List Tree) (above : List Rung)
    (next : Option Kind) : IsUnnoticed (unchanged trees) label other above next := by
  intro left tree stays right split
  rw [unchanged, List.map_eq_append_iff] at split
  rcases split with ⟨first, rest, whole, leftEq, restEq⟩
  rcases List.map_eq_cons_iff.mp restEq with ⟨middle, last, restSplit, pairEq, rightEq⟩
  rw [Prod.mk.injEq, Option.some.injEq] at pairEq
  have lefts : new left = old left := by
    have unchangedLeft : unchanged first = left := leftEq
    rw [← unchangedLeft, new_unchanged, old_unchanged]
  have rights : new right = old right := by
    have unchangedRight : unchanged last = right := rightEq
    rw [← unchangedRight, new_unchanged, old_unchanged]
  rw [lefts, rights, ← pairEq.1, ← pairEq.2]
  exact ⟨kind, rfl, fun _ => by rw [Rung.isBody, Rung.isBody, body], fun _ _ => rfl,
    fun _ _ => rfl, fun _ _ _ => rfl⟩

theorem isQuiet_unchanged {trees : List Tree} (each : ∀ tree ∈ trees, SeenAlike tree tree) :
    IsQuiet (unchanged trees) := by
  intro tree new? member
  rcases List.mem_map.mp member with ⟨child, listed, same⟩
  rw [Prod.mk.injEq] at same
  rw [← same.1, ← same.2]
  exact Or.inl ⟨child, rfl, each child listed⟩

/-- The calls of a tree are the same on ladders that look the same. -/
theorem SeenAlike.refl (tree : Tree) : SeenAlike tree tree := by
  induction tree using Rose.induct with
  | node label children inductionHypothesis =>
      have unnoticed : ∀ rungs, IsUnnoticed (unchanged children) label label rungs none :=
        fun rungs => isUnnoticed_unchanged rfl rfl children rungs none
      have seen := SeenAlike.node rfl (fun _ => ⟨rfl, rfl⟩) _
        (isQuiet_unchanged inductionHypothesis) unnoticed
      rwa [old_unchanged, new_unchanged] at seen

/-- The calls below a node depend on the node through its kind and its body only. -/
theorem sightingsAll_congr (upper other : Label) (kind : other.kind = upper.kind)
    (body : other.body = upper.body) {rungs : List Rung}
    (alike : Rung.AllAlike upper.kind rungs rungs) (trees : List Tree) :
    sightingsAll other rungs 0 none trees = sightingsAll upper rungs 0 none trees := by
  have same := sightingsAll_change alike [] (unchanged trees)
    (isQuiet_unchanged fun tree _ => SeenAlike.refl tree)
    (isUnnoticed_unchanged kind body trees rungs none)
  rwa [old_unchanged, new_unchanged] at same

end Tree

end CallbackLint
