namespace CallbackLint

/-!
# Rose trees and their traversal

Every tree of this project, the concrete tree of a script as well as the
syntax tree that the rule reads, is a rose tree: a value and an ordered list of
subtrees.  A traversal shows a visitor each value twice, once before and once
after everything below it.

Scripts nest expressions thousands of levels deep, so the traversal that runs
keeps its pending work in a list instead of on the call stack.  `Rose.visits`
is the same traversal written by recursion on the tree.
-/

/-- A finite tree whose nodes carry a value and an ordered list of subtrees. -/
inductive Rose (α : Type) where
  | node (value : α) (children : List (Rose α))

/-- One step of a traversal: a value is entered before everything below it and
left after all of that. -/
inductive Visit (α : Type) where
  | enter (value : α)
  | leave (value : α)
deriving DecidableEq, Repr

namespace Rose

variable {α β σ : Type}

def value : Rose α → α
  | node value _ => value

def children : Rose α → List (Rose α)
  | node _ children => children

@[simp] theorem value_node (root : α) (below : List (Rose α)) :
    (node root below).value = root := rfl

@[simp] theorem children_node (root : α) (below : List (Rose α)) :
    (node root below).children = below := rfl

mutual

def size : Rose α → Nat
  | node _ children => sizeAll children + 1

def sizeAll : List (Rose α) → Nat
  | [] => 0
  | tree :: rest => tree.size + sizeAll rest

end

mutual

/-- The values in the order in which a traversal enters them. -/
def preorder : Rose α → List α
  | node value children => value :: preorderAll children

def preorderAll : List (Rose α) → List α
  | [] => []
  | tree :: rest => tree.preorder ++ preorderAll rest

end

/-! ## Indented listings

A tree can be listed one value a line, each indented by its depth.  The
listing determines the tree. -/

mutual

/-- The values in preorder, each with its depth below `depth`. -/
def listing (depth : Nat) : Rose α → List (Nat × α)
  | node value children => (depth, value) :: listingAll (depth + 1) children

def listingAll (depth : Nat) : List (Rose α) → List (Nat × α)
  | [] => []
  | tree :: rest => tree.listing depth ++ listingAll depth rest

end

/-- Put one more line in front of the trees that the lines after it make: it
takes those that are indented more deeply as its children. -/
def indent (line : Nat × α) (below : List (Nat × Rose α)) : List (Nat × Rose α) :=
  let inside := below.span fun tree => decide (line.1 < tree.1)
  (line.1, node line.2 (inside.1.map Prod.snd)) :: inside.2

/-- The trees that an indented listing describes. -/
def ofListing (lines : List (Nat × α)) : List (Rose α) :=
  (lines.foldr indent []).map Prod.snd

/-! ## The traversal by recursion -/

mutual

/-- The steps of a depth-first traversal, by recursion on the tree. -/
def visits : Rose α → List (Visit α)
  | node value children => .enter value :: (visitsAll children ++ [.leave value])

def visitsAll : List (Rose α) → List (Visit α)
  | [] => []
  | tree :: rest => tree.visits ++ visitsAll rest

end

/-! ## The traversal with an agenda -/

/-- A piece of work that a traversal still owes: a whole subtree, or the leave
step of a value whose subtrees come earlier in the agenda. -/
inductive Duty (α : Type) where
  | explore (tree : Rose α)
  | depart (value : α)

/-- The number of steps that a piece of work still takes. -/
def Duty.cost : Duty α → Nat
  | explore tree => 2 * tree.size
  | depart _ => 1

def cost : List (Duty α) → Nat
  | [] => 0
  | duty :: rest => duty.cost + cost rest

/-- The duty to explore each of some trees, in order. -/
def exploreAll (trees : List (Rose α)) : List (Duty α) := trees.map .explore

theorem cost_append (first second : List (Duty α)) :
    cost (first ++ second) = cost first + cost second := by
  induction first with
  | nil => simp [cost]
  | cons duty rest inductionHypothesis => simp [cost, inductionHypothesis, Nat.add_assoc]

theorem cost_exploreAll (trees : List (Rose α)) :
    cost (exploreAll trees) = 2 * sizeAll trees := by
  induction trees with
  | nil => rfl
  | cons tree rest inductionHypothesis =>
    simp only [exploreAll, List.map_cons, cost, Duty.cost, sizeAll] at inductionHypothesis ⊢
    omega

/-- Show a visitor every step that an agenda still owes, first things first.  To explore a tree is
to enter its root and to owe the rest of it, so every round makes one step and the call stack does
not grow with the tree. -/
def drive (visitor : σ → Visit α → σ) (state : σ) : List (Duty α) → σ
  | [] => state
  | .depart value :: rest => drive visitor (visitor state (.leave value)) rest
  | .explore (node value children) :: rest =>
    drive visitor (visitor state (.enter value))
      (exploreAll children ++ .depart value :: rest)
termination_by agenda => cost agenda
decreasing_by
  · simp [cost, Duty.cost]
  · simp only [cost_append, cost_exploreAll, cost, Duty.cost, size]
    omega

/-- Show a visitor every step of the traversal of a tree. -/
def guide (visitor : σ → Visit α → σ) (state : σ) (tree : Rose α) : σ :=
  drive visitor state [.explore tree]

/-- The steps of the traversal of a tree, as the agenda produces them. -/
def walk (tree : Rose α) : List (Visit α) :=
  (guide Array.push #[] tree).toList

end Rose

end CallbackLint
