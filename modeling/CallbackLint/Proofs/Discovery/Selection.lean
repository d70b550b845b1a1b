import CallbackLint.Discovery
import CallbackLint.Proofs.Files.Listing
import CallbackLint.Proofs.Pattern.Glob

namespace CallbackLint

namespace Discovery

/-!
# Which scripts are found

A file below a folder is found if its name has one of the endings, it is not ignored
and the patterns select it.  The result has each of these files once, in the order
of their texts.
-/

/-! ## Endings -/

/-- A name has the ending of a script, and something before it. -/
def IsScriptName (name : String) : Prop :=
  ∃ stem ending, stem ≠ "" ∧ ending ∈ endings ∧ name = stem ++ ending

theorem endingOf_eq {name : String} {front back : List Char} (hasFront : front ≠ [])
    (hasBack : back ≠ []) (last : '.' ∉ back) (split : name.toList = front ++ '.' :: back) :
    endingOf name = String.ofList ('.' :: back) := by
  have others : ∀ char ∈ back.reverse, (char != '.') = true := by
    intro char member
    apply bne_iff_ne.mpr
    intro same
    exact last (same ▸ List.mem_reverse.mp member)
  have taken : name.toList.reverse.takeWhile (fun char => char != '.') = back.reverse := by
    rw [split, List.reverse_append, List.reverse_cons, List.append_assoc,
      List.takeWhile_append_of_pos others]
    simp
  have frontLength := List.length_pos_iff.mpr hasFront
  have length := congrArg List.length split
  rw [List.length_append, List.length_cons] at length
  rw [endingOf, taken, if_neg, List.reverse_reverse]
  rw [Bool.or_eq_true, List.isEmpty_iff, List.reverse_eq_nil_iff, decide_eq_true_eq,
    List.length_reverse]
  rintro (none | short)
  · exact hasBack none
  · omega

theorem exists_front_of_endingOf {name : String} (some : endingOf name ≠ "") :
    ∃ front, front ≠ [] ∧ name.toList = front ++ (endingOf name).toList := by
  generalize backEq : name.toList.reverse.takeWhile (fun char => char != '.') = back
  have whole : back ++ name.toList.reverse.dropWhile (fun char => char != '.') =
      name.toList.reverse := by
    rw [← backEq]
    exact List.takeWhile_append_dropWhile
  have long : ¬ (back.isEmpty || decide (name.toList.length ≤ back.length + 1)) = true := by
    intro short
    rw [endingOf, backEq, if_pos short] at some
    exact some rfl
  have ending : endingOf name = String.ofList ('.' :: back.reverse) := by
    rw [endingOf, backEq, if_neg long]
  rw [Bool.or_eq_true, not_or, decide_eq_true_eq] at long
  cases rest : name.toList.reverse.dropWhile (fun char => char != '.') with
  | nil =>
      have length := congrArg List.length whole
      rw [rest, List.append_nil, List.length_reverse] at length
      omega
  | cons first more =>
      have dot : first = '.' := by
        have stopped := List.head?_dropWhile_not (fun char => char != '.') name.toList.reverse
        rw [rest] at stopped
        simpa using stopped
      have length := congrArg List.length whole
      rw [rest, List.length_append, List.length_cons, List.length_reverse] at length
      rw [rest, dot] at whole
      refine ⟨more.reverse, ?_, ?_⟩
      · intro none
        rw [List.reverse_eq_nil_iff] at none
        rw [none, List.length_nil] at length
        omega
      · have back := congrArg List.reverse whole
        rw [List.reverse_reverse, List.reverse_append, List.reverse_cons] at back
        rw [← back, ending, String.toList_ofList, List.append_assoc, List.singleton_append]

/-- A script is told by its name. -/
theorem isScript_iff {file : FoundFile} : isScript file = true ↔ IsScriptName file.name := by
  rw [isScript, List.contains_iff_mem]
  constructor
  · intro listed
    have some : endingOf file.name ≠ "" := by
      intro none
      rw [none] at listed
      revert listed
      decide
    rcases exists_front_of_endingOf some with ⟨front, nonempty, split⟩
    refine ⟨String.ofList front, endingOf file.name, ?_, listed, ?_⟩
    · intro empty
      exact nonempty (by rw [← @String.toList_ofList front, empty]; rfl)
    · apply String.toList_injective
      rw [split, String.toList_append, String.toList_ofList]
  · rintro ⟨stem, ending, hasStem, listed, split⟩
    have shape : ∀ ending ∈ endings, ending = String.ofList ('.' :: ending.toList.tail) ∧
        ending.toList.tail ≠ [] ∧ '.' ∉ ending.toList.tail := by decide
    rcases shape ending listed with ⟨shapeEq, nonempty, last⟩
    have hasFront : stem.toList ≠ [] := by
      intro none
      exact hasStem (String.toList_injective none)
    have parts : file.name.toList = stem.toList ++ '.' :: ending.toList.tail := by
      rw [split, String.toList_append]
      nth_rewrite 1 [shapeEq]
      rw [String.toList_ofList]
    rw [endingOf_eq hasFront nonempty last parts, ← shapeEq]
    exact listed

/-! ## Patterns -/

def FitsPattern (text pattern : String) : Prop :=
  Glob.Stands (Glob.read pattern.toList) text.toList

/-- A text fits some pattern for what is included, unless there are none, and no pattern
for what is excluded. -/
def Selection.Allows (selection : Selection) (text : String) : Prop :=
  (selection.included = [] ∨ ∃ pattern ∈ selection.included, FitsPattern text pattern) ∧
    ∀ pattern ∈ selection.excluded, ¬ FitsPattern text pattern

theorem Selection.has_iff {selection : Selection} {file : FoundFile} :
    selection.has file = true ↔ selection.Allows file.text := by
  simp [has, Allows, FitsPattern, ← Glob.fits_iff]

/-! ## Opening ignore files -/

theorem readIgnoreFile_eq_ok_iff {files : FileTree} {root : Location} {folder : List String}
    {ignoring : IgnoreFile} :
    readIgnoreFile files root folder = .ok ignoring ↔
      ∃ bytes, files.read (root.below (folder ++ [IgnoreFile.fileName])) = .ok bytes ∧
        IgnoreFile.read folder bytes = .ok ignoring := by
  rw [readIgnoreFile]
  cases files.read (root.below (folder ++ [IgnoreFile.fileName])) <;> simp

/-! ## The result -/

variable {judge : List String → Except IgnoreFault Bool} {ignored : List String → Bool}

theorem keepUnignored_eq {files : List FoundFile}
    (answers : ∀ file ∈ files, judge file.names = .ok (ignored file.names)) :
    keepUnignored judge files = .ok (files.filter fun file => !ignored file.names) := by
  induction files with
  | nil => rfl
  | cons file rest inductionHypothesis =>
      rw [keepUnignored, answers file List.mem_cons_self,
        inductionHypothesis fun other member => answers other (List.mem_cons_of_mem _ member),
        List.filter_cons]
      cases ignored file.names <;> rfl

theorem exists_answer_of_keepUnignored {files kept : List FoundFile}
    (succeeds : keepUnignored judge files = .ok kept) :
    ∀ file ∈ files, ∃ answer, judge file.names = .ok answer := by
  induction files generalizing kept with
  | nil => exact fun _ impossible => nomatch impossible
  | cons file rest inductionHypothesis =>
      rw [keepUnignored] at succeeds
      cases judged : judge file.names with
      | error fault =>
          rw [judged] at succeeds
          cases succeeds
      | ok ignored =>
          cases later : keepUnignored judge rest with
          | error fault =>
              rw [judged, later] at succeeds
              cases succeeds
          | ok others =>
              exact List.forall_mem_cons.mpr ⟨⟨ignored, judged⟩, inductionHypothesis later⟩

/-- Files are kept if all of them are judged, and then those that are not ignored. -/
theorem keepUnignored_eq_ok_iff {files kept : List FoundFile} :
    keepUnignored judge files = .ok kept ↔
      (∀ file ∈ files, ∃ answer, judge file.names = .ok answer) ∧
        kept = files.filter fun file => decide (judge file.names = .ok false) := by
  have keeps (answers : ∀ file ∈ files, ∃ answer, judge file.names = .ok answer) :
      keepUnignored judge files =
        .ok (files.filter fun file => !!decide (judge file.names = .ok false)) := by
    apply @keepUnignored_eq judge fun names => !decide (judge names = .ok false)
    intro file member
    rcases answers file member with ⟨answer, answered⟩
    rw [answered]
    cases answer <;> rfl
  simp only [Bool.not_not] at keeps
  constructor
  · intro succeeds
    have answers := exists_answer_of_keepUnignored succeeds
    exact ⟨answers, Except.ok.inj (succeeds.symm.trans (keeps answers))⟩
  · rintro ⟨answers, rfl⟩
    exact keeps answers

/-- The scripts among some files that are selected and not ignored. -/
def chosen (ignored : List String → Bool) (selection : Selection) (found : List FoundFile) :
    List FoundFile :=
  ((found.filter isScript).filter fun file => !ignored file.names).filter selection.has

theorem mem_chosen_iff {selection : Selection} {found : List FoundFile} {file : FoundFile} :
    file ∈ chosen ignored selection found ↔
      file ∈ found ∧ IsScriptName file.name ∧ ignored file.names = false ∧
        selection.Allows file.text := by
  rw [chosen, List.mem_filter, List.mem_filter, List.mem_filter, isScript_iff,
    Selection.has_iff, Bool.not_eq_true', and_assoc, and_assoc]

theorem chosen_sublist (ignored : List String → Bool) (selection : Selection)
    (found : List FoundFile) : (chosen ignored selection found).Sublist found :=
  (List.filter_sublist.trans List.filter_sublist).trans List.filter_sublist

theorem select_eq {selection : Selection} {found : List FoundFile}
    (answers : ∀ file ∈ found, isScript file = true → judge file.names = .ok (ignored file.names)) :
    select judge selection found =
      .ok ((chosen ignored selection found).mergeSort fun first second =>
        first.text ≤ second.text) := by
  have kept : keepUnignored judge (found.filter isScript) =
      .ok ((found.filter isScript).filter fun file => !ignored file.names) := by
    apply keepUnignored_eq
    intro file member
    exact answers file (List.mem_filter.mp member).1 (List.mem_filter.mp member).2
  rw [select, kept]
  rfl

/-- If the judgements of some files have one kind of fault, then judging all of them has
it.  Nothing is kept of the files before. -/
theorem keepUnignored_error {fault : IgnoreFault} {files : List FoundFile}
    (answers : ∀ file ∈ files, judge file.names = .error fault ∨
      ∃ answer, judge file.names = .ok answer)
    (fails : ∃ file ∈ files, judge file.names = .error fault) :
    keepUnignored judge files = .error fault := by
  induction files with
  | nil =>
      rcases fails with ⟨file, member, _⟩
      cases member
  | cons file rest inductionHypothesis =>
      rw [keepUnignored]
      rcases answers file List.mem_cons_self with failed | ⟨answer, answered⟩
      · rw [failed]
        rfl
      · rcases fails with ⟨other, member, failed⟩
        rcases List.mem_cons.mp member with same | later
        · rw [same, answered] at failed
          cases failed
        · rw [answered, inductionHypothesis
            (fun other listed => answers other (List.mem_cons_of_mem _ listed))
            ⟨other, later, failed⟩]
          rfl

theorem select_error {fault : IgnoreFault} {selection : Selection} {found : List FoundFile}
    (answers : ∀ file ∈ found, isScript file = true → judge file.names = .error fault ∨
      ∃ answer, judge file.names = .ok answer)
    (fails : ∃ file ∈ found, isScript file = true ∧ judge file.names = .error fault) :
    select judge selection found = .error fault := by
  have kept : keepUnignored judge (found.filter isScript) = .error fault := by
    apply keepUnignored_error
    · intro file member
      exact answers file (List.mem_filter.mp member).1 (List.mem_filter.mp member).2
    · rcases fails with ⟨file, member, isScript, failed⟩
      exact ⟨file, List.mem_filter.mpr ⟨member, isScript⟩, failed⟩
  rw [select, kept]
  rfl

/-- Files with different texts are in strict order after sorting. -/
theorem pairwise_mergeSort_text {found : List FoundFile}
    (distinct : (found.map FoundFile.text).Nodup) :
    (found.mergeSort fun first second => first.text ≤ second.text).Pairwise
      fun first second => first.text < second.text := by
  have same := List.mergeSort_perm found fun first second => first.text ≤ second.text
  have different := List.pairwise_map.mp ((same.map FoundFile.text).nodup_iff.mpr distinct)
  have ordered : (found.mergeSort fun first second => first.text ≤ second.text).Pairwise
      fun first second => decide (first.text ≤ second.text) = true := by
    apply List.pairwise_mergeSort
    · intro first second third
      simp only [decide_eq_true_eq]
      exact String.le_trans
    · intro first second
      simp only [Bool.or_eq_true, decide_eq_true_eq]
      exact String.le_total first.text second.text
  apply ordered.imp₂ _ different
  intro first second le ne
  rw [decide_eq_true_eq] at le
  apply String.not_le.mp
  intro back
  exact ne (String.le_antisymm le back)

theorem mem_filesBelow_iff {files : FileTree} {root : Location} {file : FoundFile} :
    file ∈ filesBelow files root ↔
      ∃ tree, files.reach root = .ok tree ∧ tree.Leads file.names file.bytes := by
  rw [filesBelow]
  cases reached : files.reach root with
  | error fault => simp
  | ok tree => simp [FileTree.mem_files_iff]

/-- Parts of a tree that are in order are listed one after the other. -/
theorem filesBelow_of_ordered {parts : List FileTree}
    (ordered : (FileTree.shareAll parts).Pairwise fun first second =>
      first.precedes second = true) :
    filesBelow (.node { name := "" } parts) {} =
      (FileTree.shareAll parts).flatMap FileTree.Share.files :=
  FileTree.gather_of_ordered ordered

theorem nodup_texts_filesBelow {files : FileTree} {root : Location} (named : files.IsWellNamed) :
    ((filesBelow files root).map FoundFile.text).Nodup := by
  rw [filesBelow]
  cases reached : files.reach root with
  | error fault => exact List.nodup_nil
  | ok tree => exact FileTree.nodup_texts (named.reach reached)

/-- The scripts that are found are the regular files with the ending of a script that
are reached through real folders, not ignored and allowed by the patterns, each once and
in the order of their texts. -/
theorem select_finds (files : FileTree) (root : Location) (selection : Selection)
    (judge : List String → Except IgnoreFault Bool) (ignored : List String → Bool)
    (named : files.IsWellNamed)
    (answers : ∀ file ∈ filesBelow files root, isScript file = true →
      judge file.names = .ok (ignored file.names)) :
    ∃ result, select judge selection (filesBelow files root) = .ok result ∧
      (∀ nested ignoring, ignoreFiles files root (filesBelow files root) nested = .ok ignoring →
        (∀ file ∈ filesBelow files root, isScript file = true →
          IgnoreFile.judge ignoring file.names = judge file.names) →
        find files root selection nested = .ok result) ∧
      (result.Pairwise fun first second => first.text < second.text) ∧
      ∀ file, file ∈ result ↔
        (∃ tree, files.reach root = .ok tree ∧ tree.Leads file.names file.bytes) ∧
          IsScriptName file.name ∧ ignored file.names = false ∧ selection.Allows file.text := by
  refine ⟨_, select_eq answers, ?_, ?_, ?_⟩
  · intro nested ignoring read alike
    rw [find, read]
    apply select_eq
    intro file member isScript
    rw [alike file member isScript, answers file member isScript]
  · apply pairwise_mergeSort_text
    exact (nodup_texts_filesBelow named).sublist ((chosen_sublist _ _ _).map FoundFile.text)
  · intro file
    rw [List.mem_mergeSort, mem_chosen_iff, mem_filesBelow_iff]

/-- A folder with scripts, a name that is only an ending, a link and a folder that is
skipped. -/
def mixedFolder : FileTree :=
  .node { name := "" } [
    .node { name := "a.js", content := .file [] } [],
    .node { name := ".js", content := .file [] } [],
    .node { name := "link.js", content := .link "a.js" } [],
    .node { name := "lib" } [
      .node { name := "b.mjs", content := .file [] } [],
      .node { name := "c.cjs", content := .file [] } []],
    .node { name := "node_modules" } [
      .node { name := "d.js", content := .file [] } []]]

theorem select_finds_mixedFolder :
    let selection : Selection := { excluded := ["lib/*.cjs"] }
    let ignored : List String → Bool := fun names => names == ["lib", "b.mjs"]
    let judge : List String → Except IgnoreFault Bool := fun names => .ok (ignored names)
    mixedFolder.IsWellNamed ∧
      ∃ result, select judge selection (filesBelow mixedFolder {}) = .ok result ∧
        (∀ nested ignoring,
          ignoreFiles mixedFolder {} (filesBelow mixedFolder {}) nested = .ok ignoring →
          (∀ file ∈ filesBelow mixedFolder {}, isScript file = true →
            IgnoreFile.judge ignoring file.names = judge file.names) →
          find mixedFolder {} selection nested = .ok result) ∧
        (result.Pairwise fun first second => first.text < second.text) ∧
        ∀ file, file ∈ result ↔
          (∃ tree, mixedFolder.reach {} = .ok tree ∧ tree.Leads file.names file.bytes) ∧
            IsScriptName file.name ∧ ignored file.names = false ∧ selection.Allows file.text :=
  ⟨by decide, select_finds mixedFolder {} { excluded := ["lib/*.cjs"] }
    (fun names => .ok (names == ["lib", "b.mjs"])) (fun names => names == ["lib", "b.mjs"])
    (by decide) fun _ _ _ => rfl⟩

end Discovery

end CallbackLint
