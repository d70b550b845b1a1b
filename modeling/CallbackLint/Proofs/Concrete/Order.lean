import CallbackLint.Proofs.Concrete.Agreement
import CallbackLint.Proofs.Concrete.Ledger
import CallbackLint.Proofs.Text.Utf8
import Mathlib.Data.List.DropRight

namespace CallbackLint

open Rose

/-!
# Diagnostics in source order

The line of a place is one more than the number of line breaks before it, and its
column one more than the number of characters between the last of these and the
place.  Reading on from a place either passes a line break, or the beginning of its
line becomes longer.  So positions are in order if the places are, even where a
place is in the middle of a character or where the text is not well formed.

Lowering keeps the order of a concrete tree, but for the value of a `case`, which it
puts first.  If this is where the value stands, then nothing is out of order.
-/

/-! ## Places in a text -/

def lineBreak : UInt8 := 10

/-- What follows the last line break. -/
def lastLine (text : List UInt8) : List UInt8 := text.rtakeWhile (· != lineBreak)

/-- The place right after the last line break before a place. -/
def lineStart (source : List UInt8) (place : Nat) : Nat :=
  (source.take place).length - (lastLine (source.take place)).length

theorem lineStart_le (source : List UInt8) (place : Nat) : lineStart source place ≤ place :=
  (Nat.sub_le _ _).trans (List.length_take_le place source)

/-- The bytes from the start of a line are those after the last line break. -/
theorem sliceBytes_lineStart (source : List UInt8) (place : Nat) :
    sliceBytes source (lineStart source place) place = lastLine (source.take place) := by
  have ends : lastLine (source.take place) <:+ source.take place := List.rtakeWhile_suffix _ _
  rw [sliceBytes, if_neg (Int.not_lt.mpr (Int.natCast_nonneg _)), Int.toNat_natCast,
    ← List.drop_take, lineStart]
  exact (List.suffix_iff_eq_drop.mp ends).symm

/-- Without a line break in it, more text makes the last line longer. -/
theorem lastLine_append (text : List UInt8) {more : List UInt8} (unbroken : lineBreak ∉ more) :
    lastLine (text ++ more) = lastLine text ++ more := by
  have goesOn : ∀ byte ∈ more.reverse, (byte != lineBreak) = true := by
    intro byte member
    rw [bne_iff_ne]
    intro breaks
    exact unbroken (breaks ▸ List.mem_reverse.mp member)
  rw [lastLine, lastLine, List.rtakeWhile, List.rtakeWhile, List.reverse_append,
    List.takeWhile_append_of_pos goesOn, List.reverse_append, List.reverse_reverse]

/-! ## Positions -/

namespace Position

/-- One position is not after another one: its line is above, or it is the same line
and the column is not further to the right. -/
def NotAfter (first second : Position) : Prop :=
  first.line < second.line ∨ first.line = second.line ∧ first.column ≤ second.column

/-- The position right after a text. -/
def after (text : List UInt8) : Position :=
  { line := text.count lineBreak + 1, column := Utf8.count (lastLine text) + 1 }

/-- More text does not lead back. -/
theorem after_notAfter {text longer : List UInt8} (begins : text <+: longer) :
    (after text).NotAfter (after longer) := by
  rcases begins with ⟨more, whole⟩
  rw [← whole, NotAfter, after, after, List.count_append]
  by_cases breaks : lineBreak ∈ more
  · have above : 0 < more.count lineBreak := List.count_pos_iff.mpr breaks
    left
    dsimp only
    omega
  · have columns := Utf8.count_le_of_isPrefix (List.prefix_append (lastLine text) more)
    rw [List.count_eq_zero_of_not_mem breaks, lastLine_append text breaks]
    right
    dsimp only
    omega

end Position

namespace ConcreteLabel

/-- The row and the column of a node are those of its first byte.  Both count bytes here, as a
parser does; characters come in only when the column is shown. -/
structure IsPlaced (source : List UInt8) (label : ConcreteLabel) : Prop where
  row : label.row = (source.take label.start).count lineBreak
  column : label.column = label.start - lineStart source label.start

instance (source : List UInt8) (label : ConcreteLabel) : Decidable (label.IsPlaced source) :=
  decidable_of_iff (label.row = (source.take label.start).count lineBreak ∧
      label.column = label.start - lineStart source label.start)
    ⟨fun placed => ⟨placed.1, placed.2⟩, fun placed => ⟨placed.row, placed.column⟩⟩

theorem IsPlaced.position {source : List UInt8} {label : ConcreteLabel}
    (placed : label.IsPlaced source) :
    label.position source = .after (source.take label.start) := by
  have start : (label.start : Int) - label.column = lineStart source label.start := by
    have le := lineStart_le source label.start
    have column := placed.column
    omega
  rw [ConcreteLabel.position, start, sliceBytes_lineStart, placed.row]
  rfl

end ConcreteLabel

/-! ## Reading order -/

namespace Concrete

/-- The value of a `case` stands before the rest. -/
def IsValueFirst (node : Concrete) : Prop :=
  node.isCase = true → ∀ child ∈ node.visibleChildren.tail, node.isInRole "value" child = false

instance (node : Concrete) : Decidable node.IsValueFirst :=
  inferInstanceAs (Decidable (node.isCase = true →
    ∀ child ∈ node.visibleChildren.tail, node.isInRole "value" child = false))

/-- Moving the value of a `case` to the front changes nothing if it is there. -/
theorem IsValueFirst.valueFirst_eq {node : Concrete} (isFirst : node.IsValueFirst) :
    valueFirst node (node.visibleChildren.map reading) = node.visibleChildren.map reading := by
  by_cases isCase : node.isCase = true
  · have later := isFirst isCase
    rw [valueFirst_of_case isCase, ← List.map_append]
    cases visible : node.visibleChildren with
    | nil => rfl
    | cons first rest =>
        rw [visible, List.tail_cons] at later
        have values : rest.filter (fun child => node.isInRole "value" child) = [] :=
          List.filter_eq_nil_iff.mpr fun child member => ne_true_of_eq_false (later child member)
        have statements : rest.filter (fun child => !node.isInRole "value" child) = rest :=
          List.filter_eq_self.mpr fun child member => Bool.not_eq_true' _ ▸ later child member
        rw [List.filter_cons, List.filter_cons, values, statements]
        cases node.isInRole "value" first <;> rfl
  · exact if_neg isCase

/-- Then the nodes are read in the order of the tree. -/
theorem reading_eq_visible (node : Concrete)
    (valuesFirst : ∀ inner ∈ node.visible.preorder, IsValueFirst inner) :
    node.reading = node.visible := by
  induction node using Rose.induct with
  | node label children inductionHypothesis =>
      have visible := visible_eq (.node label children)
      rw [visible, preorder] at valuesFirst
      have each : ∀ child ∈ visibleChildren (.node label children),
          child.reading = child.visible := by
        intro child member
        apply inductionHypothesis child (List.mem_filter.mp member).1
        intro inner inside
        apply valuesFirst inner (List.mem_cons_of_mem _ _)
        exact (preorder_sublist_preorderAll (List.mem_map_of_mem member)).subset inside
      have own := valuesFirst (.node label children) List.mem_cons_self
      rw [visible, reading_eq, own.valueFirst_eq, List.map_congr_left each]

/-- A concrete tree follows its source: nodes are at their places, each begins no
earlier than those before it in preorder, and the value of a `case` comes first. -/
structure FollowsSource (source : List UInt8) (root : Concrete) : Prop where
  placed : ∀ label ∈ root.preorder, label.IsPlaced source
  ordered : (root.preorder.map ConcreteLabel.start).Pairwise (· ≤ ·)
  valuesFirst : ∀ node ∈ root.visible.preorder, IsValueFirst node

/-- The nodes of a tree that follows its source are read in the order of their
positions. -/
theorem FollowsSource.positions {source : List UInt8} {root : Concrete}
    (follows : root.FollowsSource source) :
    ((places root.reading).map fun place => place.2.value.value.position source).Pairwise
      Position.NotAfter := by
  have inTree := preorder_visible_sublist root
  have labels : ((places root.reading).map fun place => place.2.value.value).Sublist
      root.preorder := by
    have nodes := map_places root.visible
    rw [← nodes, List.map_map] at inTree
    rw [reading_eq_visible root follows.valuesFirst]
    exact inTree
  have inOrder := List.pairwise_map.mp follows.ordered
  have positions : (root.preorder.map fun label => label.position source).Pairwise
      Position.NotAfter := by
    rw [List.pairwise_map]
    apply inOrder.imp_of_mem
    intro first second firstMember secondMember le
    rw [(follows.placed first firstMember).position, (follows.placed second secondMember).position]
    exact Position.after_notAfter (List.take_prefix_take_left le)
  have among := labels.map fun label => label.position source
  rw [List.map_map] at among
  exact positions.sublist among

end Concrete

/-! ## Diagnostics -/

/-- The position of a diagnostic, without the name of its source. -/
def Diagnostic.position (diagnostic : Diagnostic) : Position :=
  { line := diagnostic.line, column := diagnostic.column }

namespace Script

/-- What is found in a script are the violations among the nodes, as they are read. -/
theorem diagnostics_eq_reported (script : Script) (distinct : script.root.Distinct)
    (names : List String) (path : Option String) :
    (script.check names path).diagnostics =
      Concrete.reported script.source names path (places script.root.reading) := by
  have agrees := Concrete.agrees script.source names path script.root distinct [] [] .nil
  rw [check, Tree.check_eq, syntaxTree, Lowering.lower?_eq script.source distinct, Option.getD_some,
    Lowering.sightings_wrapProgram, agrees]
  rfl

/-- If the concrete tree of a script follows its source, then so do the diagnostics:
none stands before one of those that it comes after. -/
theorem diagnostics_inSourceOrder (script : Script) (distinct : script.root.Distinct)
    (follows : script.root.FollowsSource script.source) (names : List String)
    (path : Option String) :
    ((script.check names path).diagnostics.map Diagnostic.position).Pairwise
      Position.NotAfter := by
  rw [diagnostics_eq_reported script distinct, Concrete.reported, List.pairwise_map,
    List.pairwise_map]
  exact (List.pairwise_map.mp follows.positions).filter _

/-- A function on two lines, whose second line begins with a piece of a character. -/
def brokenLine : Script where
  source := "function f()\x7b\n".toUTF8.toList ++ [0xE2, 0x82] ++ "cb();cb();x\x7d".toUTF8.toList
  root :=
    node { type := "program", identity := 1, stop := 28 } [
      node { type := "function_declaration", identity := 2, stop := 28 } [
        node { type := "statement_block", field := some "body", identity := 3,
               column := 12, start := 12, stop := 28 } [
          node { type := "expression_statement", identity := 4,
                 row := 1, column := 2, start := 16, stop := 21 } [
            node { type := "call_expression", identity := 5,
                   row := 1, column := 2, start := 16, stop := 20 } [
              node { type := "identifier", field := some "function", identity := 6,
                     row := 1, column := 2, start := 16, stop := 18 } []]],
          node { type := "expression_statement", identity := 7,
                 row := 1, column := 7, start := 21, stop := 26 } [
            node { type := "call_expression", identity := 8,
                   row := 1, column := 7, start := 21, stop := 25 } [
              node { type := "identifier", field := some "function", identity := 9,
                     row := 1, column := 7, start := 21, stop := 23 } []]],
          node { type := "expression_statement", identity := 10,
                 row := 1, column := 12, start := 26, stop := 27 } [
            node { type := "identifier", identity := 11,
                   row := 1, column := 12, start := 26, stop := 27 } []]]]]

/-- The two calls are told apart by their columns, where the piece counts as one
character. -/
theorem diagnostics_inSourceOrder_brokenLine :
    brokenLine.root.Distinct ∧ brokenLine.root.FollowsSource brokenLine.source ∧
      (brokenLine.check ["cb"] none).diagnostics.map Diagnostic.position =
        [{ line := 2, column := 2 }, { line := 2, column := 7 }] ∧
      ((brokenLine.check ["cb"] none).diagnostics.map Diagnostic.position).Pairwise
        Position.NotAfter := by
  have distinct : brokenLine.root.Distinct := by decide
  have follows : brokenLine.root.FollowsSource brokenLine.source :=
    ⟨by decide +kernel, by decide, by decide⟩
  exact ⟨distinct, follows, by decide +kernel,
    diagnostics_inSourceOrder brokenLine distinct follows ["cb"] none⟩

end Script

end CallbackLint
