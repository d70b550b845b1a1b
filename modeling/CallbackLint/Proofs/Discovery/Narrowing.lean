import CallbackLint.Proofs.Discovery.Difference
import CallbackLint.Proofs.Discovery.Nesting

namespace CallbackLint

/-!
# More ignore files find no more scripts

A search looks for ignore files in the root alone or in all folders below it.  The root's own
is found on both ways, unless it is a link: a listing leaves links out, while the root's is
looked up, and a lookup follows them.  Apart from that, what all ignore files leave is left by
the root's too, and the two searches sort what they leave alike.
-/

namespace IgnoreFile

variable {names : List String}

/-- If some ignore files do not ignore a file, then none of them says that it is ignored. -/
theorem ignores_ne_of_judge {files : List IgnoreFile} (judged : judge files names = .ok false) :
    ∀ file ∈ files, file.ignores names ≠ .ok true := by
  have ofAny : ∀ files : List IgnoreFile, anyIgnores names files = .ok false →
      ∀ file ∈ files, file.ignores names ≠ .ok true := by
    intro files none
    induction files with
    | nil => exact fun _ impossible => nomatch impossible
    | cons file rest inductionHypothesis =>
        rw [anyIgnores] at none
        rw [List.forall_mem_cons]
        split at none
        · cases none
        · next answered => exact ⟨by simp [answered], inductionHypothesis none⟩
        · next answered => exact ⟨by simp [answered], inductionHypothesis none⟩
        · cases none
  unfold judge at judged
  split at judged
  · next only => simp [judged]
  · exact ofAny _ judged

end IgnoreFile

namespace Discovery

open FileTree IgnoreFile

variable {files : FileTree} {root : Location} {selection : Selection}
  {judge : List String → Except IgnoreFault Bool}

/-! ## The root's ignore file -/

/-- The ignore file right in a folder is a link that leads to a file. -/
def IsLinked (files : FileTree) (root : Location) : Prop :=
  (∃ way target, files.wayTo root = .ok way ∧
    files.look (way ++ [IgnoreFile.fileName]) = some (.link target)) ∧
    ∃ bytes, files.file? (root.below [IgnoreFile.fileName]) = some bytes

/-- The root's ignore file is the one that is listed right in the root, unless it is a link. -/
theorem file?_ignoreFile_iff (proper : files.IsProper) (notLinked : ¬ IsLinked files root)
    {bytes : List UInt8} :
    files.file? (root.below [IgnoreFile.fileName]) = some bytes ↔
      { names := [IgnoreFile.fileName], bytes } ∈ filesBelow files root := by
  constructor
  · intro found
    rcases file?_eq_some_iff.mp found with ⟨final, readable, led, here⟩
    have noLink way target (ledToo : files.wayTo root = .ok way) :
        files.look (way ++ [IgnoreFile.fileName]) ≠ some (.link target) := fun link =>
      notLinked ⟨⟨way, target, ledToo, link⟩, bytes, found⟩
    rcases exists_wayTo_of_below led (by decide) noLink with ⟨way, ledToo, isFolder, rfl⟩
    rcases Option.map_eq_some_iff.mp isFolder with ⟨tree, there, _⟩
    rw [look_append there] at here
    refine mem_filesBelow_iff.mpr ⟨tree, by rw [reach_eq ledToo, there], ?_⟩
    apply (leads_iff (proper.at? there)).mpr
    exact ⟨List.cons_ne_nil _ _, List.forall_mem_nil _, readable, here⟩
  · intro listed
    rcases exists_way_of_mem proper listed with ⟨_, _, _, led, readable, here⟩
    exact file?_eq_some_iff.mpr ⟨_, readable, led, here⟩

/-- If no folder below has an ignore file, it does not matter whether they are looked for. -/
theorem ignoreFiles_eq_of_single (proper : files.IsProper) (notLinked : ¬ IsLinked files root)
    (single : ∀ file ∈ filesBelow files root, file.name = IgnoreFile.fileName →
      file.names = [IgnoreFile.fileName]) :
    ignoreFiles files root (filesBelow files root) true =
      ignoreFiles files root (filesBelow files root) false := by
  have listed (file : FoundFile) : file ∈ ((filesBelow files root).filter fun file =>
      file.name = IgnoreFile.fileName) ↔ file.names = [IgnoreFile.fileName] ∧
        files.file? (root.below [IgnoreFile.fileName]) = some file.bytes := by
    rw [file?_ignoreFile_iff proper notLinked, List.mem_filter, decide_eq_true_eq]
    rcases file with ⟨names, bytes⟩
    constructor
    · rintro ⟨member, named⟩
      cases single _ member named
      exact ⟨rfl, member⟩
    · rintro ⟨rfl, member⟩
      exact ⟨member, rfl⟩
  rw [ignoreFiles, if_pos rfl, ignoreFiles, if_neg Bool.false_ne_true]
  cases here : files.file? (root.below [IgnoreFile.fileName]) with
  | none =>
      have nothing : ((filesBelow files root).filter fun file =>
          file.name = IgnoreFile.fileName) = [] := by
        apply List.eq_nil_iff_forall_not_mem.mpr
        intro file member
        cases here.symm.trans ((listed file).mp member).2
      rw [nothing]
      rfl
  | some bytes =>
      have only : ((filesBelow files root).filter fun file =>
          file.name = IgnoreFile.fileName) = [{ names := [IgnoreFile.fileName], bytes }] := by
        apply List.perm_singleton.mp
        apply (List.perm_ext_iff_of_nodup _ (List.nodup_singleton _)).mpr
        · intro file
          rw [listed, here, List.mem_singleton, Option.some.injEq]
          constructor
          · rintro ⟨names, rfl⟩
            rw [← names]
          · rintro rfl
            exact ⟨rfl, rfl⟩
        · exact (nodup_texts_filesBelow proper.isWellNamed).of_map.filter _
      rw [only, List.mapM_cons]
      rfl

/-- What all ignore files leave is also left by the root's, unless that is a link. -/
theorem judge_root_eq_false (proper : files.IsProper) (notLinked : ¬ IsLinked files root)
    {all own : List IgnoreFile}
    (readAll : ignoreFiles files root (filesBelow files root) true = .ok all)
    (readOwn : ignoreFiles files root (filesBelow files root) false = .ok own)
    {names : List String} (left : IgnoreFile.judge all names = .ok false)
    (answers : ∃ answer, IgnoreFile.judge own names = .ok answer) :
    IgnoreFile.judge own names = .ok false := by
  rcases answers with ⟨answer, answered⟩
  rcases ignoreFiles_root readOwn with ⟨_, rfl⟩ | ⟨bytes, ignoring, found, opened, _, rfl⟩
  · rfl
  · have listed := (file?_ignoreFile_iff proper notLinked).mp found
    have among : ignoring ∈ all :=
      ((ignoreFiles_eq_ok readAll).1 ignoring).mpr ⟨_, listed, rfl, opened⟩
    cases answer with
    | false => exact answered
    | true => exact (ignores_ne_of_judge left ignoring among answered).elim

/-! ## Selecting less -/

/-- What is selected are the scripts that the judgement leaves and the patterns allow, and the
judgement has an answer about every script. -/
theorem mem_select_iff {found result : List FoundFile}
    (selected : select judge selection found = .ok result) {file : FoundFile} :
    (file ∈ result ↔ (file ∈ found ∧ isScript file = true) ∧ judge file.names = .ok false ∧
      selection.has file = true) ∧
      (file ∈ found → isScript file = true → ∃ answer, judge file.names = .ok answer) := by
  rcases exists_kept selected with ⟨kept, keeps, _, rfl⟩
  rcases keepUnignored_eq_ok_iff.mp keeps with ⟨answers, rfl⟩
  constructor
  · rw [List.mem_mergeSort, List.mem_filter, List.mem_filter, List.mem_filter, decide_eq_true_eq,
      and_assoc]
  · intro member isScript
    exact answers file (List.mem_filter.mpr ⟨member, isScript⟩)

/-- If one judgement leaves no more scripts than another, then it selects some of those that
the other selects. -/
theorem select_eq_filter {judgeToo : List String → Except IgnoreFault Bool}
    {found result more : List FoundFile} (distinct : (found.map FoundFile.text).Nodup)
    (selected : select judge selection found = .ok result)
    (selectedToo : select judgeToo selection found = .ok more)
    (leaves : ∀ names, judge names = .ok false → (∃ answer, judgeToo names = .ok answer) →
      judgeToo names = .ok false) :
    result = more.filter fun file => decide (judge file.names = .ok false) := by
  rcases exists_kept selected with ⟨kept, keeps, _, rfl⟩
  rcases exists_kept selectedToo with ⟨keptToo, keepsToo, among, rfl⟩
  rw [← mergeSort_filter (distinct.sublist ((among.trans List.filter_sublist).map FoundFile.text)),
    List.filter_comm]
  apply congrArg fun left : List FoundFile => (left.filter selection.has).mergeSort _
  rcases keepUnignored_eq_ok_iff.mp keepsToo with ⟨answers, keptEq⟩
  rw [keptEq, (keepUnignored_eq_ok_iff.mp keeps).2]
  generalize found.filter isScript = scripts at answers
  rw [List.filter_filter]
  apply List.filter_congr
  intro file member
  rw [Bool.eq_iff_iff, Bool.and_eq_true, decide_eq_true_eq, decide_eq_true_eq]
  exact ⟨fun left => ⟨left, leaves file.names left (answers file member)⟩, And.left⟩

/-! ## The searches -/

/-- What a search with all ignore files has to do with one that uses the root's alone.  More ignore
files take more scripts away, and bring one back only where the root's own is a link. -/
structure Narrows (files : FileTree) (root : Location) (deep shallow : List FoundFile) : Prop where
  /-- More ignore files bring nothing back. -/
  sublist : ¬ IsLinked files root → deep.Sublist shallow
  /-- If there is no ignore file in another folder, the searches find the same. -/
  same : ¬ IsLinked files root → (∀ file ∈ filesBelow files root,
      file.name = IgnoreFile.fileName → file.names = [IgnoreFile.fileName]) → deep = shallow
  /-- What is brought back is ignored by an ignore file that is a link. -/
  broughtBack : ∀ file ∈ deep, file ∉ shallow → IsLinked files root ∧
    ∃ bytes ignoring, files.file? (root.below [IgnoreFile.fileName]) = some bytes ∧
      IgnoreFile.read [] bytes = .ok ignoring ∧ ignoring.ignores file.names = .ok true

/-- Looking for more ignore files brings no script back, unless the root's is a link. -/
theorem find_narrows (files : FileTree) (root : Location) (selection : Selection)
    (deep shallow : List FoundFile) (proper : files.IsProper)
    (nested : find files root selection true = .ok deep)
    (single : find files root selection false = .ok shallow) :
    Narrows files root deep shallow := by
  rcases find_eq_ok_iff.mp nested with ⟨all, readAll, selected⟩
  rcases find_eq_ok_iff.mp single with ⟨own, readOwn, selectedToo⟩
  have narrow (notLinked : ¬ IsLinked files root) : deep = shallow.filter fun file =>
      decide (IgnoreFile.judge all file.names = .ok false) :=
    select_eq_filter (nodup_texts_filesBelow proper.isWellNamed) selected selectedToo
      fun _ => judge_root_eq_false proper notLinked readAll readOwn
  refine ⟨?_, ?_, ?_⟩
  · intro notLinked
    rw [narrow notLinked]
    exact List.filter_sublist
  · intro notLinked onlyRoot
    have alike := ignoreFiles_eq_of_single proper notLinked onlyRoot
    rw [readAll, readOwn] at alike
    cases alike
    exact Except.ok.inj (selected.symm.trans selectedToo)
  · intro file inDeep notInShallow
    rcases (mem_select_iff selected).1.mp inDeep with ⟨⟨member, isScript⟩, _, allowed⟩
    rcases (mem_select_iff selectedToo).2 member isScript with ⟨answer, answered⟩
    have ignored : IgnoreFile.judge own file.names = .ok true := by
      cases answer with
      | true => exact answered
      | false =>
          exact (notInShallow ((mem_select_iff selectedToo).1.mpr
            ⟨⟨member, isScript⟩, answered, allowed⟩)).elim
    constructor
    · by_contra notLinked
      rw [narrow notLinked] at inDeep
      exact notInShallow (List.mem_of_mem_filter inDeep)
    · rcases ignoreFiles_root readOwn with
        ⟨_, rfl⟩ | ⟨bytes, ignoring, found, _, parsed, rfl⟩
      · cases ignored
      · exact ⟨bytes, ignoring, found, parsed, ignored⟩

theorem find_narrows_twoIgnoreFiles :
    let own : FoundFile := { names := ["a.js"], bytes := [] }
    let inner : FoundFile := { names := ["lib", "x.js"], bytes := [] }
    twoIgnoreFiles.IsProper ∧ find twoIgnoreFiles {} {} true = .ok [own] ∧
      find twoIgnoreFiles {} {} false = .ok [own, inner] ∧
      Narrows twoIgnoreFiles {} [own] [own, inner] := by
  intro own inner
  have proper : twoIgnoreFiles.IsProper := by decide
  have listed := @filesBelow_library [
    .node { name := ".gitignore", content := .file "z\n".toUTF8.toList } [],
    .node { name := "a.js", content := .file [] } []] (by decide +kernel)
  have nested : find twoIgnoreFiles {} {} true = .ok [own] := by
    apply @find_of_ordered _ _ {} true _ [own]
      [{ folder := [], rules := [{ written := "(^|[/])z$".toList }] },
        { folder := ["lib"], rules := [{ written := "(^|[/])x\\.js$".toList }] }] listed
    · decide +kernel
    · decide +kernel
    · decide +kernel
  have single : find twoIgnoreFiles {} {} false = .ok [own, inner] := by
    apply @find_of_ordered _ _ {} false _ [own, inner]
      [{ folder := [], rules := [{ written := "(^|[/])z$".toList }] }] listed
    · decide +kernel
    · decide +kernel
    · decide +kernel
  exact ⟨proper, nested, single,
    find_narrows twoIgnoreFiles {} {} [own] [own, inner] proper nested single⟩

/-- A folder whose ignore file is a link to a file with rules. -/
def linkedRules : FileTree :=
  .node { name := "" } [
    .node { name := ".gitignore", content := .link "rules" } [],
    .node { name := "a.js", content := .file [] } [],
    .node { name := "rules", content := .file "a.js\n".toUTF8.toList } []]

/-- Looking for more ignore files brings a script back. -/
theorem find_linkedRules :
    let script : FoundFile := { names := ["a.js"], bytes := [] }
    linkedRules.IsProper ∧ find linkedRules {} {} true = .ok [script] ∧
      find linkedRules {} {} false = .ok [] ∧ ¬ [script].Sublist ([] : List FoundFile) := by
  intro script
  have listed : filesBelow linkedRules {} =
      [script, { names := ["rules"], bytes := "a.js\n".toUTF8.toList }] :=
    filesBelow_of_ordered (by decide +kernel)
  have nested : find linkedRules {} {} true = .ok [script] := by
    apply @find_of_ordered _ _ {} true _ [script] [] listed
    · decide +kernel
    · decide +kernel
    · decide +kernel
  have single : find linkedRules {} {} false = .ok [] := by
    apply @find_of_ordered _ _ {} false _ []
      [{ folder := [], rules := [{ written := "(^|[/])a\\.js$".toList }] }] listed
    · decide +kernel
    · decide +kernel
    · decide +kernel
  exact ⟨by decide, nested, single, by decide⟩

end Discovery

end CallbackLint
