namespace CallbackLint

/-!
# The functions around a point of a traversal

While a traversal goes down a syntax tree, every function that it has entered
and not yet left has a frame.  Frames form a stack; a frame records its own
depth and the depth of the frame it was pushed onto.

A frame outlives its place on the stack, and its parent is looked up by depth
in the stack of the moment.  So the parent of a stale frame may be a frame that
came later, or missing altogether.
-/

/-- A function that a traversal has entered.  The frame names the one below it by depth alone, and
so stays as it is when the stack goes on changing. -/
structure Frame where
  /-- The name of the function node. -/
  function : Nat
  /-- How many frames were on the stack below this one. -/
  depth : Nat
  /-- The depth of the frame directly below, if there was one. -/
  parent : Option Nat
deriving DecidableEq, Repr

/-- The frames of the functions around the present point, innermost first. -/
structure Scopes where
  frames : List Frame := []
deriving DecidableEq, Repr

namespace Scopes

def height (scopes : Scopes) : Nat := scopes.frames.length

/-- The innermost function around the present point. -/
def current? (scopes : Scopes) : Option Frame := scopes.frames.head?

/-- The frame at a given depth; the outermost function has depth zero. -/
def frameAt? (scopes : Scopes) (depth : Nat) : Option Frame :=
  scopes.frames.reverse[depth]?

/-- The frame that entering a function pushes. -/
def frameFor (scopes : Scopes) (function : Nat) : Frame :=
  { function, depth := scopes.height,
    parent := if scopes.height = 0 then none else some (scopes.height - 1) }

def enter (scopes : Scopes) (function : Nat) : Scopes :=
  { frames := scopes.frameFor function :: scopes.frames }

/-- Leave the innermost function; outside every function this does nothing. -/
def leave (scopes : Scopes) : Scopes := { frames := scopes.frames.tail }

/-- A frame was asked for its parent after the stack had become too short. -/
structure MissingFrame where
  depth : Nat
deriving DecidableEq, Repr

/-- The frame that is now at the depth of a frame's parent.  As long as the frame itself is on the
stack, that is the frame onto which it was pushed. -/
def parentOf (scopes : Scopes) (frame : Frame) : Except MissingFrame (Option Frame) :=
  match frame.parent with
  | none => .ok none
  | some depth =>
    match scopes.frameAt? depth with
    | some parent => .ok (some parent)
    | none => .error { depth }

end Scopes

end CallbackLint
