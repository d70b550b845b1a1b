import CallbackLint.Proofs.Concrete.Order
import CallbackLint.Proofs.Concrete.WellFormed
import CallbackLint.Proofs.Report.Document
import Mathlib.Algebra.Ring.Nat

namespace CallbackLint

open Rose

/-!
# How far lines and columns go

Every diagnostic is at some node of the concrete tree, whatever tree a parser made.  Its column
counts pieces of the source, and its line is that of the node.  So if the parser puts no node
on a line that the source does not have, then lines and columns are at most one more than the
length of the source, and a document has room for them unless the source is immense.
-/

/-! ## Columns -/

theorem length_sliceBytes_le (bytes : List UInt8) (first : Int) (last : Nat) :
    (sliceBytes bytes first last).length ≤ bytes.length := by
  rw [sliceBytes, List.length_take, List.length_drop]
  omega

theorem ConcreteLabel.column_position_le (label : ConcreteLabel) (source : List UInt8) :
    (label.position source).column ≤ source.length + 1 := by
  have pieces := Utf8.count_le_length
    (sliceBytes source ((label.start : Int) - label.column) label.start)
  have bytes := length_sliceBytes_le source ((label.start : Int) - label.column) label.start
  rw [position]
  dsimp only
  omega

/-! ## Diagnostics -/

namespace Script

/-- The nodes of the syntax tree are where nodes of the concrete tree are. -/
theorem exists_node_of_mem_syntaxTree (script : Script) :
    ∀ label ∈ script.syntaxTree.preorder,
      ∃ node ∈ script.root.preorder, label.position = node.position script.source := by
  refine script.forall_preorder_syntaxTree ?_ ?_
  · intro node visited label stands
    exact ⟨node.value, (Concrete.preorder_visible_sublist script.root).subset
      (List.mem_map_of_mem visited), stands.1⟩
  · rintro first label ⟨node, inTree, same⟩ isBlock
    exact ⟨node, inTree, isBlock.1.trans same⟩

/-- A diagnostic is at a node of the concrete tree. -/
theorem exists_node_of_mem_diagnostics (script : Script) {names : List String}
    {path : Option String} {diagnostic : Diagnostic}
    (member : diagnostic ∈ (script.check names path).diagnostics) :
    ∃ node ∈ script.root.preorder, diagnostic.position = node.position script.source := by
  rw [check, Tree.check_eq, List.mem_filterMap] at member
  rcases member with ⟨sighting, seen, reported⟩
  rcases Tree.exists_label_of_mem_sightings _ seen with ⟨label, inside, _, here⟩
  rcases script.exists_node_of_mem_syntaxTree label inside with ⟨node, inTree, same⟩
  refine ⟨node, inTree, ?_⟩
  rw [← same, here]
  rw [Sighting.report?] at reported
  split at reported
  · cases reported
    rfl
  · cases reported

/-- A script is that of some bytes, and stays within them: none of its nodes is on a line that
they do not have.  There are fewer bytes than an integer of 64 bits can count. -/
structure StaysWithin (script : Script) (bytes : List UInt8) : Prop where
  source : script.source = bytes
  rows : ∀ node ∈ script.root.preorder, node.row ≤ bytes.count lineBreak
  size : bytes.length < 2 ^ 63

instance (script : Script) (bytes : List UInt8) : Decidable (script.StaysWithin bytes) :=
  decidable_of_iff (script.source = bytes ∧
      (∀ node ∈ script.root.preorder, node.row ≤ bytes.count lineBreak) ∧
      bytes.length < 2 ^ 63)
    ⟨fun within => ⟨within.1, within.2.1, within.2.2⟩,
      fun within => ⟨within.source, within.rows, within.size⟩⟩

/-- A document has room for what is found in such a script. -/
theorem StaysWithin.fits {script : Script} {bytes : List UInt8} (within : script.StaysWithin bytes)
    {names : List String} {path : Option String} {diagnostic : Diagnostic}
    (member : diagnostic ∈ (script.check names path).diagnostics) :
    isDocumentInteger diagnostic.line = true ∧ isDocumentInteger diagnostic.column = true := by
  rcases script.exists_node_of_mem_diagnostics member with ⟨node, inTree, here⟩
  have line : diagnostic.line = node.row + 1 := congrArg Position.line here
  have column : diagnostic.column = Utf8.count _ + 1 := congrArg Position.column here
  have row := within.rows node inTree
  have breaks : bytes.count lineBreak ≤ bytes.length := List.count_le_length
  have pieces := node.column_position_le script.source
  rw [← here, within.source] at pieces
  have size := within.size
  simp only [isDocumentInteger_iff]
  change diagnostic.column ≤ _ at pieces
  omega

end Script

end CallbackLint
