import CallbackLint.Proofs.Rule.Scopes
import Mathlib.Data.List.Induction

namespace CallbackLint

/-!
# The frames after any moves

A traversal enters and leaves functions in pairs, but the frames do not depend on that.
After any moves, surplus ones included, they are those of a plain stack of functions:
each frame knows its own index and that of the frame below it, and the innermost frame is
the one of the last function that was entered and not left again.

A parent is looked up by index, in the frames of the moment.  For a frame that is still on
the stack this finds the frame right below it.  For one that was left it finds whatever has
its parent's index by then, and fails if nothing has.
-/

namespace Scopes

/-- What can be done to the frames: a function is entered, or the innermost one is left. -/
inductive Move where
  | enter (function : Nat)
  | leave
deriving DecidableEq, Repr

def move (scopes : Scopes) : Move → Scopes
  | .enter function => scopes.enter function
  | .leave => scopes.leave

def moveAll (scopes : Scopes) (moves : List Move) : Scopes := moves.foldl move scopes

/-- The frames after some moves, when there were none before. -/
abbrev after (moves : List Move) : Scopes := ({} : Scopes).moveAll moves

/-- A counter that goes up with each function that is entered, and down with each that is
left, but not below zero. -/
def count (height : Nat) : Move → Nat
  | .enter _ => height + 1
  | .leave => height - 1

theorem moveAll_append (scopes : Scopes) (first second : List Move) :
    scopes.moveAll (first ++ second) = (scopes.moveAll first).moveAll second :=
  List.foldl_append

theorem moveAll_cons (scopes : Scopes) (move : Move) (moves : List Move) :
    scopes.moveAll (move :: moves) = (scopes.move move).moveAll moves := rfl

/-! ## Each frame knows its place -/

theorem height_move (scopes : Scopes) (move : Move) :
    (scopes.move move).height = count scopes.height move := by
  cases move with
  | enter function => rfl
  | leave => exact List.length_tail

theorem height_moveAll (scopes : Scopes) (moves : List Move) :
    (scopes.moveAll moves).height = moves.foldl count scopes.height := by
  induction moves generalizing scopes with
  | nil => rfl
  | cons move rest inductionHypothesis =>
      rw [moveAll_cons, inductionHypothesis, height_move, List.foldl_cons]

/-- One move away from frames that come from entering functions are such frames again. -/
theorem exists_enterEach_move (functions : List Nat) (move : Move) :
    ∃ others, (({} : Scopes).enterEach functions).move move = ({} : Scopes).enterEach others := by
  cases move with
  | enter function => exact ⟨function :: functions, rfl⟩
  | leave =>
      cases functions with
      | nil => exact ⟨[], rfl⟩
      | cons function functions => exact ⟨functions, leave_enter _ function⟩

theorem exists_enterEach (moves : List Move) :
    ∃ functions, after moves = ({} : Scopes).enterEach functions := by
  induction moves using List.reverseRecOn with
  | nil => exact ⟨[], rfl⟩
  | append_singleton moves move inductionHypothesis =>
      rcases inductionHypothesis with ⟨functions, same⟩
      rw [after, moveAll_append, ← after, same]
      exact exists_enterEach_move functions move

/-- A frame on the stack has the index that it was given. -/
theorem eq_frameAt (moves : List Move) {index : Nat} {frame : Frame}
    (found : (after moves).frames.reverse[index]? = some frame) :
    frame = frameAt index frame.function := by
  rcases exists_enterEach moves with ⟨functions, same⟩
  have bottom : ({} : Scopes).frames.reverse = [] := rfl
  have ground : ({} : Scopes).height = 0 := rfl
  rw [same, reverse_frames_enterEach, bottom, List.nil_append, List.getElem?_mapIdx,
    Option.map_eq_some_iff] at found
  rcases found with ⟨function, _, frameEq⟩
  rw [ground, Nat.zero_add] at frameEq
  rw [← frameEq]
  rfl

/-- The parent of a frame on the stack is the frame right below it. -/
theorem parentOf_eq (moves : List Move) {above below : List Frame} {frame : Frame}
    (split : (after moves).frames = above ++ frame :: below) :
    (after moves).parentOf frame = .ok below.head? := by
  have upward : (after moves).frames.reverse = below.reverse ++ frame :: above.reverse := by
    rw [split, List.reverse_append, List.reverse_cons, List.append_assoc, List.singleton_append]
  have place : frame = frameAt below.length frame.function := by
    apply eq_frameAt moves
    rw [upward, ← List.length_reverse, List.getElem?_append_right (Nat.le_refl _), Nat.sub_self,
      List.getElem?_cons_zero]
  cases below with
  | nil =>
      rw [place]
      rfl
  | cons parent rest =>
      have found : (after moves).frameAt? rest.length = some parent := by
        rw [frameAt?, upward, List.reverse_cons, List.append_assoc, ← List.length_reverse,
          List.getElem?_append_right (Nat.le_refl _), Nat.sub_self]
        rfl
      have link : frame.parent = some rest.length := by
        rw [place]
        rfl
      simp only [parentOf, link, found, List.head?_cons]

/-! ## Moves that cancel out -/

/-- Every function that is entered is left again, and nothing else is left. -/
inductive Cancels : List Move → Prop
  | nil : Cancels []
  | pair {function : Nat} {inside rest : List Move} : Cancels inside → Cancels rest →
      Cancels (.enter function :: (inside ++ .leave :: rest))

theorem Cancels.append {first second : List Move} (cancels : Cancels first)
    (alsoCancels : Cancels second) : Cancels (first ++ second) := by
  induction cancels with
  | nil => exact alsoCancels
  | pair inside _ _ inductionHypothesis =>
      rw [List.cons_append, List.append_assoc, List.cons_append]
      exact .pair inside inductionHypothesis

theorem Cancels.moveAll_eq {moves : List Move} (cancels : Cancels moves) (scopes : Scopes) :
    scopes.moveAll moves = scopes := by
  induction cancels generalizing scopes with
  | nil => rfl
  | pair _ _ leavesInside leavesRest =>
      rw [moveAll_cons, moveAll_append, leavesInside, moveAll_cons, leavesRest]
      exact leave_enter scopes _

/-- Some moves undo the one before them: up to a move that leaves its function, they cancel
out. -/
def Undo (moves : List Move) : Prop :=
  ∃ inside later, moves = inside ++ .leave :: later ∧ Cancels inside

/-- Some moves leave no function that they have not entered, and leave that many of their
functions entered. -/
inductive Rises : Nat → List Move → Prop
  | cancels {moves : List Move} : Cancels moves → Rises 0 moves
  | enter {levels : Nat} {moves rest : List Move} {function : Nat} : Rises levels moves →
      Cancels rest → Rises (levels + 1) (moves ++ .enter function :: rest)

theorem Rises.append {levels : Nat} {moves rest : List Move} (rises : Rises levels moves)
    (cancels : Cancels rest) : Rises levels (moves ++ rest) := by
  cases rises with
  | cancels alsoCancels => exact .cancels (alsoCancels.append cancels)
  | enter rises alsoCancels =>
      rw [List.append_assoc, List.cons_append]
      exact .enter rises (alsoCancels.append cancels)

/-- The last function that is still entered can be left. -/
theorem Rises.leave {levels : Nat} {moves : List Move} (rises : Rises (levels + 1) moves) :
    Rises levels (moves ++ [.leave]) := by
  cases rises with
  | enter rises cancels =>
      rw [List.append_assoc, List.cons_append]
      exact rises.append (.pair cancels .nil)

theorem undo_or_rises (moves : List Move) : Undo moves ∨ ∃ levels, Rises levels moves := by
  induction moves using List.reverseRecOn with
  | nil => exact Or.inr ⟨0, .cancels .nil⟩
  | append_singleton moves move inductionHypothesis =>
      rcases inductionHypothesis with ⟨inside, later, split, cancels⟩ | ⟨levels, rises⟩
      · refine Or.inl ⟨inside, later ++ [move], ?_, cancels⟩
        rw [split, List.append_assoc, List.cons_append]
      · cases move with
        | enter function => exact Or.inr ⟨levels + 1, .enter rises .nil⟩
        | leave =>
            cases rises with
            | cancels cancels => exact Or.inl ⟨moves, [], rfl, cancels⟩
            | enter rises cancels => exact Or.inr ⟨_, (rises.enter cancels).leave⟩

theorem Rises.exists_frames {levels : Nat} {moves : List Move} (rises : Rises levels moves)
    (scopes : Scopes) : ∃ above, (scopes.moveAll moves).frames = above ++ scopes.frames := by
  induction rises with
  | cancels cancels => exact ⟨[], by rw [cancels.moveAll_eq, List.nil_append]⟩
  | enter _ cancels inductionHypothesis =>
      rcases inductionHypothesis with ⟨above, framesEq⟩
      rw [moveAll_append, moveAll_cons, cancels.moveAll_eq, move, Scopes.enter, framesEq]
      exact ⟨_ :: above, rfl⟩

/-- A frame stays where it was pushed until its function is left. -/
theorem undo_or_exists_frames (before rest : List Move) (function : Nat) :
    Undo rest ∨ ∃ above, (after (before ++ .enter function :: rest)).frames =
      above ++ (after before).frameFor function :: (after before).frames := by
  rcases undo_or_rises rest with undo | ⟨levels, rises⟩
  · exact Or.inl undo
  · rcases rises.exists_frames ((after before).enter function) with ⟨above, framesEq⟩
    rw [after, moveAll_append, moveAll_cons]
    exact Or.inr ⟨above, framesEq⟩

/-- A frame was pushed onto the frames that are below it now, by a move after which so many
functions are entered for good as there are frames above it. -/
theorem exists_enter {moves : List Move} {above below : List Frame} {frame : Frame}
    (split : (after moves).frames = above ++ frame :: below) :
    ∃ before function rest, moves = before ++ .enter function :: rest ∧
      Rises above.length rest ∧ frame = (after before).frameFor function ∧
      (after before).frames = below := by
  induction moves using List.reverseRecOn generalizing above with
  | nil => cases List.append_ne_nil_of_right_ne_nil above (List.cons_ne_nil _ _) split.symm
  | append_singleton moves move inductionHypothesis =>
      rw [after, moveAll_append] at split
      cases move with
      | enter function =>
          cases above with
          | nil =>
              have pushed := List.cons.inj split
              exact ⟨moves, function, [], rfl, .cancels .nil, pushed.1.symm, pushed.2⟩
          | cons top above =>
              rcases inductionHypothesis (List.cons.inj split).2 with
                ⟨before, earlier, rest, rfl, rises, pushed, onto⟩
              refine ⟨before, earlier, rest ++ [.enter function], ?_, ?_, pushed, onto⟩
              · rw [List.append_assoc, List.cons_append]
              · exact .enter rises .nil
      | leave =>
          -- The frame that is left was above the others.
          have dropped : (after moves).frames.tail = above ++ frame :: below := split
          cases frames : (after moves).frames with
          | nil =>
              rw [frames] at dropped
              cases List.append_ne_nil_of_right_ne_nil above (List.cons_ne_nil _ _) dropped.symm
          | cons left others =>
              rw [frames, List.tail_cons] at dropped
              rw [dropped, ← List.cons_append] at frames
              rcases inductionHypothesis frames with
                ⟨before, function, rest, rfl, rises, pushed, onto⟩
              refine ⟨before, function, rest ++ [.leave], ?_, rises.leave, pushed, onto⟩
              rw [List.append_assoc, List.cons_append]

/-- The innermost frame is that of the last function that was entered and not left again. -/
theorem current?_eq_some_iff (moves : List Move) (frame : Frame) :
    (after moves).current? = some frame ↔
      ∃ before function rest, moves = before ++ .enter function :: rest ∧ Cancels rest ∧
        frame = (after before).frameFor function := by
  constructor
  · intro current
    rcases List.head?_eq_some_iff.mp current with ⟨below, top⟩
    have alone : (after moves).frames = [] ++ frame :: below := top
    rcases exists_enter alone with ⟨before, function, rest, split, rises, pushed, _⟩
    cases rises with
    | cancels cancels => exact ⟨before, function, rest, split, cancels, pushed⟩
  · rintro ⟨before, function, rest, split, cancels, pushed⟩
    rw [split, after, moveAll_append, moveAll_cons, cancels.moveAll_eq, pushed]
    rfl

/-! ## The stack as a whole -/

/-- A parent cannot be found exactly if the frames no longer reach up to its index. -/
theorem parentOf_eq_error_iff (scopes : Scopes) (frame : Frame) :
    (∃ missing, scopes.parentOf frame = .error missing) ↔
      ∃ depth, frame.parent = some depth ∧ scopes.height ≤ depth := by
  cases link : frame.parent with
  | none =>
      simp only [parentOf, link]
      exact ⟨nofun, nofun⟩
  | some depth =>
      have short : scopes.frameAt? depth = none ↔ scopes.height ≤ depth := by
        rw [frameAt?, List.getElem?_eq_none_iff, List.length_reverse]
        rfl
      cases found : scopes.frameAt? depth with
      | none =>
          simp only [parentOf, link, found]
          exact ⟨fun _ => ⟨depth, rfl, short.mp found⟩, fun _ => ⟨{ depth }, rfl⟩⟩
      | some parent =>
          simp only [parentOf, link, found]
          refine ⟨nofun, ?_⟩
          rintro ⟨index, same, high⟩
          rw [← Option.some.inj same] at high
          rw [short.mpr high] at found
          cases found

/-- What the frames are after some moves.  A function may be left where none was entered, and a
frame may be asked for its parent long after it has gone, so both are accounted for. -/
structure FollowsMoves (moves : List Move) : Prop where
  /-- Each frame has the index of its place, and the index below for its parent. -/
  indexed : ∀ index frame, (after moves).frames.reverse[index]? = some frame →
    frame.depth = index ∧ frame.parent = if index = 0 then none else some (index - 1)
  height : (after moves).height = moves.foldl count 0
  /-- The innermost frame is the one that the last move pushed that is not undone. -/
  current : ∀ frame, (after moves).current? = some frame ↔
    ∃ before function rest, moves = before ++ .enter function :: rest ∧ Cancels rest ∧
      frame = (after before).frameFor function
  /-- A frame stays where it was pushed until its function is left. -/
  kept : ∀ before function rest, moves = before ++ .enter function :: rest →
    Undo rest ∨ ∃ above, (after moves).frames =
      above ++ (after before).frameFor function :: (after before).frames
  /-- The parent of a frame on the stack is found, and is the frame right below it. -/
  beneath : ∀ above frame below, (after moves).frames = above ++ frame :: below →
    (after moves).parentOf frame = .ok below.head?
  /-- Of all frames that were ever pushed, those have no parent to be found whose parent's
  index the frames do not reach up to. -/
  stale : ∀ before function rest, moves = before ++ .enter function :: rest →
    ((∃ missing, (after moves).parentOf ((after before).frameFor function) = .error missing) ↔
      ∃ depth, ((after before).frameFor function).parent = some depth ∧
        (after moves).height ≤ depth)

/-- The frames follow any moves, whether or not functions are left that were entered. -/
theorem frames_follow_moves (moves : List Move) : FollowsMoves moves where
  indexed := by
    intro index frame found
    rw [eq_frameAt moves found]
    exact ⟨rfl, rfl⟩
  height := height_moveAll {} moves
  current := current?_eq_some_iff moves
  kept := by
    rintro before function rest rfl
    exact undo_or_exists_frames before rest function
  beneath := fun _ _ _ split => parentOf_eq moves split
  stale := fun _ _ _ _ => parentOf_eq_error_iff _ _

/-- The parent of a frame that was left is gone, or is a frame that came later. -/
example :
    let stale : Frame := { function := 2, depth := 1, parent := some 0 }
    (after [.enter 1, .enter 2]).current? = some stale ∧
      (after [.enter 1, .enter 2, .leave, .leave, .leave]).parentOf stale = .error { depth := 0 } ∧
      (after [.enter 1, .enter 2, .leave, .leave, .enter 3]).parentOf stale =
        .ok (some { function := 3, depth := 0, parent := none }) := by
  decide

end Scopes

end CallbackLint
