import CallbackLint.Rose
import Mathlib.Logic.Function.Iterate

namespace CallbackLint

/-!
# The rounds of a traversal

`Rose.drive` is a loop: in each round the first piece of work is taken from the
agenda, and exploring a node puts new work in front.  The cost of an agenda counts
the rounds that are left.  It goes down by one in every round, so that the loop
ends, whatever the tree and whatever the visitor does: after two rounds for each
node, and not before.
-/

namespace Rose

variable {α σ : Type}

/-- One round of the loop, on the state of the visitor and the agenda.  Nothing
happens when no work is left. -/
def round (visitor : σ → Visit α → σ) : σ × List (Duty α) → σ × List (Duty α)
  | (state, []) => (state, [])
  | (state, .depart value :: rest) => (visitor state (.leave value), rest)
  | (state, .explore (node value children) :: rest) =>
    (visitor state (.enter value), exploreAll children ++ .depart value :: rest)

variable (visitor : σ → Visit α → σ)

/-- A round is one step of work. -/
theorem cost_round (state : σ) (agenda : List (Duty α)) :
    cost (round visitor (state, agenda)).2 = cost agenda - 1 := by
  cases agenda with
  | nil => rfl
  | cons duty rest =>
      cases duty with
      | depart value => simp only [round, cost, Duty.cost, Nat.add_sub_cancel_left]
      | explore tree =>
          cases tree with
          | node value children =>
              simp only [round, cost_append, cost_exploreAll, cost, Duty.cost, size]
              omega

theorem cost_rounds (count : Nat) (state : σ) (agenda : List (Duty α)) :
    cost ((round visitor)^[count] (state, agenda)).2 = cost agenda - count := by
  induction count with
  | zero => rfl
  | succ count inductionHypothesis =>
      rw [Function.iterate_succ_apply', cost_round, inductionHypothesis, Nat.sub_sub]

/-- After as many rounds as the agenda costs, no work is left, and the state of the
visitor is the result of the loop. -/
theorem rounds_eq_drive (state : σ) (agenda : List (Duty α)) :
    (round visitor)^[cost agenda] (state, agenda) = (drive visitor state agenda, []) := by
  fun_induction drive visitor state agenda with
  | case1 state => rfl
  | case2 state value rest inductionHypothesis =>
      rw [cost, Duty.cost, Nat.add_comm, Function.iterate_succ_apply]
      exact inductionHypothesis
  | case3 state value children rest inductionHypothesis =>
      have next : cost (exploreAll children ++ .depart value :: rest) + 1 =
          cost (.explore (node value children) :: rest) := by
        simp only [cost_append, cost_exploreAll, cost, Duty.cost, size]
        omega
      rw [← next, Function.iterate_succ_apply]
      exact inductionHypothesis

/-- The loop over a tree takes two rounds for each node. -/
theorem rounds_eq_guide (state : σ) (tree : Rose α) :
    (round visitor)^[2 * tree.size] (state, [.explore tree]) = (guide visitor state tree, []) :=
  rounds_eq_drive visitor state [.explore tree]

/-- It does not take fewer. -/
theorem agenda_ne_nil {count : Nat} {tree : Rose α} (early : count < 2 * tree.size) (state : σ) :
    ((round visitor)^[count] (state, [.explore tree])).2 ≠ [] := by
  intro done
  have left := cost_rounds visitor count state [.explore tree]
  rw [done] at left
  simp only [cost, Duty.cost] at left
  omega

end Rose

end CallbackLint
