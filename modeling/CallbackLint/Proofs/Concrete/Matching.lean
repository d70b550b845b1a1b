import CallbackLint.Proofs.Concrete.Shape
import CallbackLint.Proofs.Rule.Recursion

namespace CallbackLint

open Rose

/-!
# Levels and ladders

The levels above a node of the concrete tree and the ladder of the node that it
becomes match: a level stands for one rung, or for two where the way leads through
the statements of a `case`.  What the rule tests on one side it tests on the other,
so matching surroundings lead to the same verdict.
-/

namespace Concrete

namespace Level

open Lowering

/-- The rungs of a ladder stand for the levels above a node, in the same order. -/
inductive Matches : List Level → List Rung → Prop
  | nil : Matches [] []
  | plain {level : Level} {rung : Rung} {levels : List Level} {rungs : List Rung}
      (noCase : level.node.isCase = false) (kind : rung.upper.kind = level.node.kind)
      (body : rung.upper.kind = .function → rung.isBody = level.node.isInRole "body" level.top)
      (lower : rung.lower = level.top.strip.kind)
      (next : rung.next = level.after.head?.map fun next => next.strip.kind)
      (above : Matches levels rungs) : Matches (level :: levels) (rung :: rungs)
  /-- The value of a `case` is right below it. -/
  | value {level : Level} {rung : Rung} {levels : List Level} {rungs : List Rung}
      (isCase : level.node.isCase = true)
      (isValue : level.node.isInRole "value" level.top = true)
      (kind : rung.upper.kind = .switchCase)
      (above : Matches levels rungs) : Matches (level :: levels) (rung :: rungs)
  /-- Its statements are in a block of their own. -/
  | statement {level : Level} {rung outer : Rung} {levels : List Level} {rungs : List Rung}
      (isCase : level.node.isCase = true)
      (isStatement : level.node.isInRole "value" level.top = false)
      (kind : rung.upper.kind = .block) (branch : outer.upper.kind = .switchCase)
      (next : rung.next = level.after.head?.map fun next => next.strip.kind)
      (above : Matches levels rungs) : Matches (level :: levels) (rung :: outer :: rungs)

variable {level : Level} {rung : Rung} {levels : List Level} {rungs : List Rung}

/-! ## One level -/

theorem isFunction_eq (level : Level) : level.isFunction = (level.node.kind == .function) := by
  apply Bool.eq_iff_iff.mpr
  rw [beq_iff_eq, kind_eq_function_iff]
  rfl

/-- A `case` is no construct of another kind. -/
theorem kind_ne_of_isCase {kind : Kind} (isCase : level.node.isCase = true)
    (other : kind ≠ .switchCase) : level.node.kind ≠ kind :=
  fun same => other (same.symm.trans (kind_eq_switchCase_iff.mpr isCase))

theorem not_isFunction_of_isCase (isCase : level.node.isCase = true) :
    level.isFunction = false := by
  rw [isFunction_eq, beq_eq_false_iff_ne]
  exact kind_ne_of_isCase isCase (by decide)

theorem Matches.isFunction_eq (noCase : rung.upper.kind = level.node.kind) :
    rung.isFunction = level.isFunction := by
  rw [Rung.isFunction, noCase, Level.isFunction_eq]

/-- The innermost function is at matching levels. -/
theorem Matches.find? (matching : Matches levels rungs) :
    (levels.find? isFunction = none ∧ rungs.find? Rung.isFunction = none) ∨
      ∃ level rung, levels.find? isFunction = some level ∧
        rungs.find? Rung.isFunction = some rung ∧
        rung.isBody = level.node.isInRole "body" level.top ∧
        rung.lower = level.top.strip.kind := by
  induction matching with
  | nil => exact Or.inl ⟨rfl, rfl⟩
  | @plain level rung levels rungs noCase kind body lower next above inductionHypothesis =>
      have same := Matches.isFunction_eq kind
      cases isFunction : level.isFunction with
      | true =>
          rw [isFunction] at same
          refine Or.inr ⟨level, rung, ?_, ?_, ?_, lower⟩
          · rw [List.find?_cons, isFunction]
          · rw [List.find?_cons, same]
          · rw [Rung.isFunction, beq_iff_eq] at same
            exact body same
      | false =>
          rw [isFunction] at same
          rw [List.find?_cons, isFunction, List.find?_cons, same]
          exact inductionHypothesis
  | @value level rung levels rungs isCase isValue kind above inductionHypothesis =>
      have other : rung.isFunction = false := by
        rw [Rung.isFunction, kind]
        rfl
      rw [List.find?_cons, not_isFunction_of_isCase isCase, List.find?_cons, other]
      exact inductionHypothesis
  | @statement level rung outer levels rungs isCase isStatement kind branch next above
      inductionHypothesis =>
      have other : rung.isFunction = false := by
        rw [Rung.isFunction, kind]
        rfl
      have outerOther : outer.isFunction = false := by
        rw [Rung.isFunction, branch]
        rfl
      rw [List.find?_cons, not_isFunction_of_isCase isCase, List.find?_cons, other,
        List.find?_cons, outerOther]
      exact inductionHypothesis

/-! ## Neighbouring levels -/

theorem Matches.cons_left (matching : Matches (level :: levels) rungs) :
    ∃ rung rest, rungs = rung :: rest := by
  cases matching with
  | plain => exact ⟨_, _, rfl⟩
  | value => exact ⟨_, _, rfl⟩
  | statement => exact ⟨_, _, rfl⟩

theorem Matches.cons_right (matching : Matches levels (rung :: rungs)) :
    ∃ level rest, levels = level :: rest := by
  cases matching with
  | plain => exact ⟨_, _, rfl⟩
  | value => exact ⟨_, _, rfl⟩
  | statement => exact ⟨_, _, rfl⟩

/-- The kinds that lowering does not use for a `case` are the same on both sides. -/
theorem Matches.kind_iff {kind : Kind} (noCase : kind ≠ .switchCase) (noBlock : kind ≠ .block)
    (matching : Matches (level :: levels) (rung :: rungs)) :
    rung.upper.kind = kind ↔ level.node.kind = kind := by
  cases matching with
  | plain _ same => rw [same]
  | value isCase _ same =>
      rw [same]
      exact iff_of_false noCase.symm (kind_ne_of_isCase isCase noCase)
  | statement isCase _ same =>
      rw [same]
      exact iff_of_false noBlock.symm (kind_ne_of_isCase isCase noCase)

/-- What a level says about its rung if it is no `case`. -/
theorem Matches.of_kind {kind : Kind} (noCase : kind ≠ .switchCase)
    (matching : Matches (level :: levels) (rung :: rungs)) (same : level.node.kind = kind) :
    rung.upper.kind = kind ∧
      (kind = .function → rung.isBody = level.node.isInRole "body" level.top) ∧
      rung.next = (level.after.head?.map fun next => next.strip.kind) ∧ Matches levels rungs := by
  cases matching with
  | plain _ kindEq body _ next above =>
      have rungKind := kindEq.trans same
      exact ⟨rungKind, fun isFunction => body (rungKind.trans isFunction), next, above⟩
  | value isCase => exact False.elim (kind_ne_of_isCase isCase noCase same)
  | statement isCase => exact False.elim (kind_ne_of_isCase isCase noCase same)

theorem Matches.isStatementList_iff (matching : Matches (level :: levels) (rung :: rungs)) :
    rung.upper.kind.isStatementList = true ↔ level.IsStatementList := by
  rw [IsStatementList, ← kind_eq_program_iff, ← kind_eq_block_iff]
  cases matching with
  | plain noCase same =>
      rw [same, noCase]
      cases level.node.kind <;> simp [Kind.isStatementList]
  | value isCase isValue same =>
      rw [same, kind_eq_switchCase_iff.mpr isCase, isValue]
      simp [Kind.isStatementList]
  | statement isCase isStatement same =>
      rw [same, isCase, isStatement]
      simp [Kind.isStatementList]

/-- In a list of statements the next one is the next child. -/
theorem Matches.next_eq (matching : Matches (level :: levels) (rung :: rungs))
    (isList : level.IsStatementList) :
    rung.next = level.after.head?.map fun next => next.strip.kind := by
  have seen := matching.isStatementList_iff.mpr isList
  cases matching with
  | plain _ _ _ _ next => exact next
  | value _ _ same =>
      rw [same] at seen
      cases seen
  | statement _ _ _ _ next => exact next

theorem next_isReturn_iff (after : List Concrete) :
    ((after.head?.map fun next => next.strip.kind) == some .returnStatement) = true ↔
      ∃ next later, after = next :: later ∧ next.strip.value.type = "return_statement" := by
  cases after with
  | nil =>
      constructor
      · intro impossible
        cases impossible
      · rintro ⟨_, _, impossible, _⟩
        cases impossible
  | cons next later =>
      rw [List.head?_cons, Option.map_some, beq_iff_eq, Option.some.injEq,
        kind_eq_returnStatement_iff]
      constructor
      · exact fun type => ⟨next, later, rfl, type⟩
      · rintro ⟨_, _, same, type⟩
        cases same
        exact type

/-! ## The tests -/

theorem Matches.returnOperand_iff (matching : Matches levels rungs) :
    Rung.isReturnOperand rungs = true ↔ IsReturnOperand levels := by
  constructor
  · intro seen
    cases rungs with
    | nil => cases seen
    | cons rung rungs =>
        rcases matching.cons_right with ⟨level, rest, split⟩
        rw [split] at matching
        rw [Rung.isReturnOperand, beq_iff_eq,
          matching.kind_iff (by decide) (by decide), kind_eq_returnStatement_iff] at seen
        exact ⟨level, rest, split, seen⟩
  · rintro ⟨level, rest, split, type⟩
    rw [split] at matching
    rcases matching.cons_left with ⟨rung, rungs', rungsEq⟩
    rw [rungsEq] at matching ⊢
    rw [Rung.isReturnOperand, beq_iff_eq, matching.kind_iff (by decide) (by decide),
      kind_eq_returnStatement_iff]
    exact type

theorem Matches.followedByReturn_iff (matching : Matches levels rungs) :
    Rung.isFollowedByReturn rungs = true ↔ IsFollowedByReturn levels := by
  constructor
  · intro seen
    rcases rungs with _ | ⟨statementRung, _ | ⟨listRung, rungs⟩⟩
    · cases seen
    · cases seen
    rw [Rung.isFollowedByReturn, Bool.and_eq_true, Bool.and_eq_true, beq_iff_eq] at seen
    rcases seen with ⟨⟨isStatement, isList⟩, isReturn⟩
    rcases matching.cons_right with ⟨statement, rest, split⟩
    rw [split] at matching
    rw [matching.kind_iff (by decide) (by decide)] at isStatement
    have above := (matching.of_kind (by decide) isStatement).2.2.2
    rcases above.cons_right with ⟨list, outer, outerSplit⟩
    rw [outerSplit] at above
    rw [above.isStatementList_iff] at isList
    rw [above.next_eq isList, next_isReturn_iff] at isReturn
    rcases isReturn with ⟨next, later, after, type⟩
    exact ⟨statement, list, outer, next, later, by rw [split, outerSplit],
      kind_eq_expressionStatement_iff.mp isStatement, isList, after, type⟩
  · rintro ⟨statement, list, outer, next, later, split, isStatement, isList, after, type⟩
    rw [← kind_eq_expressionStatement_iff] at isStatement
    rw [split] at matching
    rcases matching.cons_left with ⟨statementRung, rest, rungsEq⟩
    rw [rungsEq] at matching ⊢
    have above := (matching.of_kind (by decide) isStatement).2.2.2
    rcases above.cons_left with ⟨listRung, outerRungs, restEq⟩
    rw [restEq] at above ⊢
    rw [Rung.isFollowedByReturn, Bool.and_eq_true, Bool.and_eq_true, beq_iff_eq,
      matching.kind_iff (by decide) (by decide), above.isStatementList_iff, above.next_eq isList,
      next_isReturn_iff]
    exact ⟨⟨isStatement, isList⟩, next, later, after, type⟩

theorem isNone_next_iff (after : List Concrete) :
    (after.head?.map fun next => next.strip.kind).isNone = true ↔ after = [] := by
  rw [Option.isNone_map, Option.isNone_iff_eq_none, List.head?_eq_none_iff]

theorem Matches.guardedOperand_iff (matching : Matches levels rungs) :
    Rung.isGuarded rungs = true ↔ IsGuardedOperand levels := by
  constructor
  · intro seen
    rcases rungs with _ | ⟨operationRung, _ | ⟨statementRung, rungs⟩⟩
    · cases seen
    · cases seen
    rw [Rung.isGuarded, Bool.and_eq_true, Bool.and_eq_true, beq_iff_eq, beq_iff_eq] at seen
    rcases seen with ⟨⟨isOperation, isLast⟩, isStatement⟩
    rcases matching.cons_right with ⟨operation, rest, split⟩
    rw [split] at matching
    rw [matching.kind_iff (by decide) (by decide)] at isOperation
    rcases matching.of_kind (by decide) isOperation with ⟨_, _, nextEq, above⟩
    rcases above.cons_right with ⟨statement, outer, outerSplit⟩
    rw [outerSplit] at above
    rw [above.kind_iff (by decide) (by decide), kind_eq_expressionStatement_iff] at isStatement
    rw [nextEq, isNone_next_iff] at isLast
    rw [kind_eq_logicalAnd_iff] at isOperation
    exact ⟨operation, statement, outer, by rw [split, outerSplit], isOperation.1, isOperation.2,
      isLast, isStatement⟩
  · rintro ⟨operation, statement, outer, split, type, operator, isLast, isStatement⟩
    have isOperation := kind_eq_logicalAnd_iff.mpr ⟨type, operator⟩
    rw [split] at matching
    rcases matching.cons_left with ⟨operationRung, rest, rungsEq⟩
    rw [rungsEq] at matching ⊢
    rcases matching.of_kind (by decide) isOperation with ⟨_, _, nextEq, above⟩
    rcases above.cons_left with ⟨statementRung, outerRungs, restEq⟩
    rw [restEq] at above ⊢
    rw [Rung.isGuarded, Bool.and_eq_true, Bool.and_eq_true, beq_iff_eq, beq_iff_eq,
      matching.kind_iff (by decide) (by decide), above.kind_iff (by decide) (by decide), nextEq,
      isNone_next_iff, kind_eq_expressionStatement_iff]
    exact ⟨⟨isOperation, isLast⟩, isStatement⟩

/-- A block right below a function is not the block of a `case`. -/
theorem Matches.of_block {next : Rung} (isBlock : rung.upper.kind = .block)
    (isFunction : next.isFunction = true)
    (matching : Matches (level :: levels) (rung :: next :: rungs)) :
    level.node.kind = .block ∧
      rung.next = (level.after.head?.map fun next => next.strip.kind) ∧
        Matches levels (next :: rungs) := by
  cases matching with
  | plain _ same _ _ next above => exact ⟨same.symm.trans isBlock, next, above⟩
  | value _ _ same =>
      rw [same] at isBlock
      cases isBlock
  | statement _ _ _ branch =>
      rw [Rung.isFunction, branch] at isFunction
      cases isFunction

/-- A level is a block that ends the function above it. -/
theorem Matches.lastBlock_iff (matching : Matches (level :: levels) (rung :: rungs)) :
    (rung.upper.kind = .block ∧ rung.next.isNone = true ∧
        rungs.head?.any (fun function => function.isFunction && function.isBody) = true) ↔
      level.node.kind = .block ∧ level.after = [] ∧ ∃ function rest,
        levels = function :: rest ∧ function.node.kind = .function ∧
          function.node.isInRole "body" function.top = true := by
  constructor
  · rintro ⟨isBlock, isLast, isBody⟩
    cases rungs with
    | nil =>
        rw [List.head?_nil, Option.any_none] at isBody
        cases isBody
    | cons functionRung rungs =>
        rw [List.head?_cons, Option.any_some, Bool.and_eq_true] at isBody
        rcases isBody with ⟨isFunction, isBody⟩
        rcases matching.of_block isBlock isFunction with ⟨blockKind, nextEq, above⟩
        rcases above.cons_right with ⟨function, rest, split⟩
        rw [split] at above
        rw [Rung.isFunction, beq_iff_eq, above.kind_iff (by decide) (by decide)] at isFunction
        rw [(above.of_kind (by decide) isFunction).2.1 rfl] at isBody
        rw [nextEq, isNone_next_iff] at isLast
        exact ⟨blockKind, isLast, function, rest, split, isFunction, isBody⟩
  · rintro ⟨isBlock, isLast, function, rest, split, isFunction, isBody⟩
    rcases matching.of_kind (by decide) isBlock with ⟨blockKind, _, nextEq, above⟩
    rw [split] at above
    rcases above.cons_left with ⟨functionRung, topRungs, rungsEq⟩
    rw [rungsEq] at above ⊢
    rcases above.of_kind (by decide) isFunction with ⟨functionKind, bodyEq, _⟩
    rw [nextEq, isNone_next_iff, List.head?_cons, Option.any_some, Bool.and_eq_true,
      Rung.isFunction, beq_iff_eq, bodyEq rfl]
    exact ⟨blockKind, isLast, functionKind, isBody⟩

theorem Matches.functionTail_iff {function : Level} (matching : Matches levels rungs)
    (nearest : levels.find? isFunction = some function) :
    Rung.isFunctionTail rungs = true ↔ IsFunctionTail levels function := by
  constructor
  · intro seen
    rcases rungs with _ | ⟨statementRung, _ | ⟨blockRung, rungs⟩⟩
    · cases seen
    · cases seen
    rw [Rung.isFunctionTail, Bool.and_eq_true, Bool.and_eq_true, Bool.and_eq_true, beq_iff_eq,
      beq_iff_eq] at seen
    rcases seen with ⟨⟨⟨isStatement, isBlock⟩, isLast⟩, isBody⟩
    rcases matching.cons_right with ⟨statement, rest, split⟩
    rw [split] at matching
    rw [matching.kind_iff (by decide) (by decide)] at isStatement
    have above := (matching.of_kind (by decide) isStatement).2.2.2
    rcases above.cons_right with ⟨block, outer, outerSplit⟩
    rw [outerSplit] at above
    rcases above.lastBlock_iff.mp ⟨isBlock, isLast, isBody⟩ with
      ⟨blockKind, last, found, top, topSplit, foundKind, foundBody⟩
    rw [split, outerSplit, topSplit, List.find?_cons, List.find?_cons, List.find?_cons,
      Level.isFunction_eq statement, isStatement, Level.isFunction_eq block, blockKind,
      Level.isFunction_eq found, foundKind] at nearest
    have same : found = function := Option.some.inj nearest
    rw [← same]
    exact ⟨statement, block, top, by rw [split, outerSplit, topSplit],
      kind_eq_expressionStatement_iff.mp isStatement, kind_eq_block_iff.mp blockKind, last,
      foundBody⟩
  · rintro ⟨statement, block, top, split, isStatement, isBlock, isLast, isBody⟩
    have isFunction := List.find?_some nearest
    rw [Level.isFunction_eq, beq_iff_eq] at isFunction
    rw [← kind_eq_expressionStatement_iff] at isStatement
    rw [← kind_eq_block_iff] at isBlock
    rw [split] at matching
    rcases matching.cons_left with ⟨statementRung, rest, rungsEq⟩
    rw [rungsEq] at matching ⊢
    have above := (matching.of_kind (by decide) isStatement).2.2.2
    rcases above.cons_left with ⟨blockRung, outerRungs, restEq⟩
    rw [restEq] at above ⊢
    rcases above.lastBlock_iff.mpr ⟨isBlock, isLast, function, top, rfl, isFunction, isBody⟩ with
      ⟨blockKind, last, body⟩
    rw [Rung.isFunctionTail, Bool.and_eq_true, Bool.and_eq_true, Bool.and_eq_true, beq_iff_eq,
      beq_iff_eq, matching.kind_iff (by decide) (by decide)]
    exact ⟨⟨⟨isStatement, blockKind⟩, last⟩, body⟩

/-- Matching surroundings lead to the same verdict. -/
theorem Matches.verdict_iff (matching : Matches levels rungs) :
    (Rung.placement rungs).verdict = .violating ↔
      ∃ function, levels.find? isFunction = some function ∧ ¬ IsAccepted levels function := by
  rw [Rung.placement]
  rcases matching.find? with ⟨noLevel, noRung⟩ | ⟨function, rung, found, rungFound, body, lower⟩
  · rw [noRung]
    constructor
    · intro impossible
      cases impossible
    · rintro ⟨function, impossible, _⟩
      rw [noLevel] at impossible
      cases impossible
  · have expressionBody : Rung.isImplicitReturn rung = true ↔ IsInExpressionBody function := by
      rw [Rung.isImplicitReturn, Bool.and_eq_true, bne_iff_ne, body, lower, IsInExpressionBody,
        Ne, kind_eq_block_iff]
    have accepted : IsAccepted levels function ↔ Rung.isReturnOperand rungs = true ∨
        Rung.isImplicitReturn rung = true ∨ Rung.isFollowedByReturn rungs = true ∨
        Rung.isGuarded rungs = true ∨ Rung.isFunctionTail rungs = true := by
      rw [matching.returnOperand_iff, expressionBody, matching.followedByReturn_iff,
        matching.guardedOperand_iff, matching.functionTail_iff found]
      rfl
    have only : (∃ other, levels.find? isFunction = some other ∧ ¬ IsAccepted levels other) ↔
        ¬ IsAccepted levels function := by
      constructor
      · rintro ⟨other, otherFound, refused⟩
        rw [found, Option.some.injEq] at otherFound
        exact otherFound ▸ refused
      · exact fun refused => ⟨function, found, refused⟩
    rw [rungFound, only, accepted]
    exact Placement.verdict_of_tests _ _ _ _ _

end Level

end Concrete

end CallbackLint
