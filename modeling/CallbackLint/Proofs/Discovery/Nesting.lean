import CallbackLint.Proofs.Discovery.Selection

namespace CallbackLint

/-!
# Ignore files in folders

Every ignore file below a folder is asked about every script there, though it has
rules only for what is below its own folder.  When there are several, one that is asked
about something outside does not count.  A single one must answer, and it has no
answer as soon as it has a rule: then nothing is found at all.  In all other cases
a script is left out exactly if an ignore file in a folder above it says so.
-/

namespace IgnoreFile

variable {file : IgnoreFile} {names : List String}

theorem folder_eq {folder : List String} {bytes : List UInt8}
    (parsed : read folder bytes = .ok file) : file.folder = folder := by
  rw [read] at parsed
  split at parsed
  · cases parsed
  · cases rules : rulesIn (piecesBetween '\n' (unifyLineEnds _)) with
    | error fault =>
        rw [rules] at parsed
        cases parsed
    | ok found =>
        rw [rules] at parsed
        cases parsed
        rfl

/-! ## Outside of the folder -/

theorem firstConcerning_outside (outside : ¬ file.folder <+: names) (rules : List IgnoreRule) :
    file.firstConcerning names rules = if rules = [] then .ok none else .error .outside := by
  have refused : file.folder.isPrefixOf names = false := by
    rw [← Bool.not_eq_true, List.isPrefixOf_iff_prefix]
    exact outside
  cases rules with
  | nil => rfl
  | cons rule rest =>
      rw [firstConcerning, concerns, if_neg (ne_true_of_eq_false refused)]
      rfl

/-- Outside of its folder, an ignore file has no answer as soon as it has a rule. -/
theorem ignores_outside (outside : ¬ file.folder <+: names) :
    file.ignores names = if file.rules = [] then .ok false else .error .outside := by
  rw [ignores, firstConcerning_outside outside, firstConcerning_outside outside]
  simp only [List.reverse_eq_nil_iff]
  cases empty : file.rules with
  | nil => rfl
  | cons rule rest =>
      simp only [List.cons_ne_nil, if_false]
      split <;> rfl

/-! ## Several ignore files -/

/-- Below its folder an ignore file has an answer. -/
def Answers (names : List String) (file : IgnoreFile) : Prop :=
  file.folder <+: names → ∃ answer, file.ignores names = .ok answer

instance (names : List String) (file : IgnoreFile) : Decidable (file.Answers names) :=
  inferInstanceAs (Decidable (file.folder <+: names → ∃ answer, file.ignores names = .ok answer))

/-- An ignore file in a folder above a file ignores it. -/
def Hides (names : List String) (file : IgnoreFile) : Prop :=
  file.folder <+: names ∧ file.ignores names = .ok true

/-- Ignore files that are each asked, and forgiven for what is outside of their folder,
ignore a file if one in a folder above it does. -/
theorem exists_anyIgnores {files : List IgnoreFile} (answers : ∀ file ∈ files, Answers names file) :
    ∃ answer, anyIgnores names files = .ok answer ∧
      (answer = true ↔ ∃ file ∈ files, Hides names file) := by
  induction files with
  | nil => exact ⟨false, rfl, by simp⟩
  | cons file rest inductionHypothesis =>
      have own := answers file List.mem_cons_self
      rcases inductionHypothesis fun other member => answers other (List.mem_cons_of_mem _ member)
        with ⟨later, laterEq, laterIff⟩
      rw [anyIgnores]
      simp only [List.exists_mem_cons_iff]
      by_cases inside : file.folder <+: names
      · rcases own inside with ⟨answer, answerEq⟩
        rw [answerEq]
        cases answer with
        | true => exact ⟨true, rfl, by simp [Hides, inside, answerEq]⟩
        | false => exact ⟨later, laterEq, by simp [Hides, answerEq, laterIff]⟩
      · have skipped : ¬ Hides names file := fun hides => inside hides.1
        rw [ignores_outside inside]
        refine ⟨later, ?_, ?_⟩
        · by_cases noRules : file.rules = []
          · rw [if_pos noRules]
            exact laterEq
          · rw [if_neg noRules]
            exact laterEq
        · rw [laterIff, or_iff_right skipped]

/-- A single ignore file with rules is asked about a file outside of its folder. -/
def Stranded (files : List IgnoreFile) (names : List String) : Prop :=
  ∃ file, files = [file] ∧ file.rules ≠ [] ∧ ¬ file.folder <+: names

theorem judge_of_stranded {files : List IgnoreFile} (stranded : Stranded files names) :
    judge files names = .error .outside := by
  rcases stranded with ⟨file, only, hasRules, outside⟩
  rw [only, judge, ignores_outside outside, if_neg hasRules]

/-- In all other cases there is an answer. -/
theorem exists_judge {files : List IgnoreFile} (answers : ∀ file ∈ files, Answers names file)
    (notStranded : ¬ Stranded files names) :
    ∃ answer, judge files names = .ok answer ∧
      (answer = true ↔ ∃ file ∈ files, Hides names file) := by
  rcases files with _ | ⟨file, _ | ⟨second, rest⟩⟩
  · exact exists_anyIgnores answers
  · rw [judge]
    simp only [List.mem_singleton, exists_eq_left]
    by_cases inside : file.folder <+: names
    · rcases answers file List.mem_cons_self inside with ⟨answer, answerEq⟩
      exact ⟨answer, answerEq, by simp [Hides, inside, answerEq]⟩
    · have noRules : file.rules = [] := by
        by_contra hasRules
        exact notStranded ⟨file, rfl, hasRules, inside⟩
      refine ⟨false, by rw [ignores_outside inside, if_pos noRules], ?_⟩
      simp [Hides, inside]
  · exact exists_anyIgnores answers

end IgnoreFile

namespace Discovery

/-! ## Reading all ignore files -/

/-- If acting on all items succeeds, then so does acting on each. -/
theorem map_eq_of_mapM {α β ε : Type} {act : α → Except ε β} {items : List α} {results : List β}
    (succeeds : items.mapM act = .ok results) : items.map act = results.map .ok := by
  induction items generalizing results with
  | nil =>
      cases succeeds
      rfl
  | cons item rest inductionHypothesis =>
      rw [List.mapM_cons] at succeeds
      cases first : act item with
      | error fault =>
          rw [first] at succeeds
          cases succeeds
      | ok result =>
          cases later : rest.mapM act with
          | error fault =>
              rw [first, later] at succeeds
              cases succeeds
          | ok others =>
              rw [first, later] at succeeds
              cases succeeds
              rw [List.map_cons, List.map_cons, first, inductionHypothesis later]

/-- A file that is listed below a folder is read as an ignore file. -/
def IsIgnoreFile (files : FileTree) (root : Location) (ignoring : IgnoreFile) : Prop :=
  ∃ origin ∈ filesBelow files root, origin.name = IgnoreFile.fileName ∧
    readIgnoreFile files root origin.folder = .ok ignoring

/-- One of the ignore files that are listed below a folder is above a file and ignores it. -/
def HiddenIn (files : FileTree) (root : Location) (names : List String) : Prop :=
  ∃ ignoring, IsIgnoreFile files root ignoring ∧ IgnoreFile.Hides names ignoring

/-- Below a folder there is a single ignore file, it has rules, and some script is outside of
the folder that it is in. -/
def StrandedIn (files : FileTree) (root : Location) : Prop :=
  ∃ origin ignoring,
    ((filesBelow files root).filter fun file => file.name = IgnoreFile.fileName) = [origin] ∧
    readIgnoreFile files root origin.folder = .ok ignoring ∧ ignoring.rules ≠ [] ∧
    ∃ file ∈ filesBelow files root, isScript file = true ∧ ¬ origin.folder <+: file.names

variable {files : FileTree} {root : Location}

theorem folder_of_readIgnoreFile {folder : List String} {ignoring : IgnoreFile}
    (read : readIgnoreFile files root folder = .ok ignoring) : ignoring.folder = folder := by
  rcases readIgnoreFile_eq_ok_iff.mp read with ⟨bytes, _, parsed⟩
  exact IgnoreFile.folder_eq parsed

theorem ignoreFiles_eq_ok {ignoring : List IgnoreFile}
    (read : ignoreFiles files root (filesBelow files root) true = .ok ignoring) :
    (∀ file, file ∈ ignoring ↔ IsIgnoreFile files root file) ∧
      ((∃ file ∈ filesBelow files root, isScript file = true ∧
          IgnoreFile.Stranded ignoring file.names) ↔
        StrandedIn files root) := by
  rw [ignoreFiles, if_pos rfl] at read
  have same := map_eq_of_mapM read
  generalize originsEq : ((filesBelow files root).filter fun file =>
    file.name = IgnoreFile.fileName) = origins at same
  constructor
  · intro file
    have listed : Except.ok file ∈ ignoring.map (Except.ok : IgnoreFile → Except IgnoreFault _) ↔
        file ∈ ignoring := List.mem_map_of_injective fun _ _ => Except.ok.inj
    rw [← listed, ← same, List.mem_map, IsIgnoreFile, ← originsEq]
    simp only [List.mem_filter, decide_eq_true_eq, and_assoc]
  · constructor
    · rintro ⟨file, member, isScript, only, single, hasRules, outside⟩
      rw [single, List.map_singleton, List.map_eq_singleton_iff] at same
      rcases same with ⟨origin, originEq, readEq⟩
      rw [folder_of_readIgnoreFile readEq] at outside
      exact ⟨origin, only, originsEq.trans originEq, readEq, hasRules, file, member, isScript,
        outside⟩
    · rintro ⟨origin, only, originEq, readEq, hasRules, file, member, isScript, outside⟩
      rw [originsEq.symm.trans originEq, List.map_singleton, readEq] at same
      rcases List.map_eq_singleton_iff.mp same.symm with ⟨other, single, otherEq⟩
      rw [Except.ok.inj otherEq] at single
      rw [← folder_of_readIgnoreFile readEq] at outside
      exact ⟨file, member, isScript, only, single, hasRules, outside⟩

/-! ## The search -/

open Classical in
/-- If no script is stranded, then the ignore files together answer as those do that are
above a script. -/
theorem judge_eq_hidden {ignoring : List IgnoreFile}
    (read : ignoreFiles files root (filesBelow files root) true = .ok ignoring)
    (answers : ∀ file ∈ filesBelow files root, isScript file = true →
      ∀ other ∈ ignoring, other.Answers file.names)
    (notStranded : ¬ StrandedIn files root) :
    ∀ file ∈ filesBelow files root, isScript file = true →
      IgnoreFile.judge ignoring file.names = .ok (decide (HiddenIn files root file.names)) := by
  intro file member isScript
  rcases ignoreFiles_eq_ok read with ⟨members, strandedIff⟩
  have notHere : ¬ IgnoreFile.Stranded ignoring file.names := fun stranded =>
    notStranded (strandedIff.mp ⟨file, member, isScript, stranded⟩)
  rcases IgnoreFile.exists_judge (answers file member isScript) notHere with
    ⟨answer, answerEq, answerIff⟩
  rw [answerEq]
  apply congrArg
  apply Bool.eq_iff_iff.mpr
  rw [answerIff, decide_eq_true_eq, HiddenIn]
  simp only [members]

/-- If a script is stranded, then the search fails, whatever the other scripts are. -/
theorem select_of_stranded {ignoring : List IgnoreFile}
    (read : ignoreFiles files root (filesBelow files root) true = .ok ignoring)
    (answers : ∀ file ∈ filesBelow files root, isScript file = true →
      ∀ other ∈ ignoring, other.Answers file.names)
    (stranded : StrandedIn files root) (selection : Selection) :
    select (IgnoreFile.judge ignoring) selection (filesBelow files root) =
      .error .outside := by
  rcases (ignoreFiles_eq_ok read).2.mpr stranded with ⟨file, member, isScript, here⟩
  apply select_error
  · intro other listed otherIsScript
    by_cases away : IgnoreFile.Stranded ignoring other.names
    · exact Or.inl (IgnoreFile.judge_of_stranded away)
    · rcases IgnoreFile.exists_judge (answers other listed otherIsScript) away with
        ⟨answer, answerEq, _⟩
      exact Or.inr ⟨answer, answerEq⟩
  · exact ⟨file, member, isScript, IgnoreFile.judge_of_stranded here⟩

/-- The search fails exactly if a single ignore file with rules is in a folder that some
script is outside of.  In all other cases, the scripts that are found are those that the
patterns allow and that no ignore file above them ignores. -/
theorem find_nested (files : FileTree) (root : Location) (selection : Selection)
    (ignoring : List IgnoreFile)
    (read : ignoreFiles files root (filesBelow files root) true = .ok ignoring)
    (answers : ∀ file ∈ filesBelow files root, isScript file = true →
      ∀ other ∈ ignoring, other.Answers file.names) :
    (find files root selection true = .error .outside ↔ StrandedIn files root) ∧
      (¬ StrandedIn files root →
        ∃ result, find files root selection true = .ok result ∧
          ∀ file, file ∈ result ↔ file ∈ filesBelow files root ∧ IsScriptName file.name ∧
            ¬ HiddenIn files root file.names ∧ selection.Allows file.text) := by
  have same : find files root selection true =
      select (IgnoreFile.judge ignoring) selection (filesBelow files root) := by
    rw [find, read]
    rfl
  rw [same]
  have succeeds : ¬ StrandedIn files root →
      ∃ result, select (IgnoreFile.judge ignoring) selection (filesBelow files root) =
          .ok result ∧
        ∀ file, file ∈ result ↔ file ∈ filesBelow files root ∧ IsScriptName file.name ∧
          ¬ HiddenIn files root file.names ∧ selection.Allows file.text := by
    classical
    intro notStranded
    have selected := @select_eq _ (fun names => decide (HiddenIn files root names))
      selection _ (judge_eq_hidden read answers notStranded)
    refine ⟨_, selected, ?_⟩
    intro file
    rw [List.mem_mergeSort, mem_chosen_iff, decide_eq_false_iff_not]
  refine ⟨⟨?_, ?_⟩, succeeds⟩
  · intro failed
    by_contra notStranded
    rcases succeeds notStranded with ⟨result, found, _⟩
    rw [failed] at found
    cases found
  · intro stranded
    exact select_of_stranded read answers stranded selection

/-- A folder with an ignore file for the script in it. -/
def library : FileTree :=
  .node { name := "lib" } [
    .node { name := ".gitignore", content := .file "x.js\n".toUTF8.toList } [],
    .node { name := "x.js", content := .file [] } []]

theorem files_library :
    FileTree.files library =
      [{ names := [".gitignore"], bytes := "x.js\n".toUTF8.toList },
        { names := ["x.js"], bytes := [] }] := by
  have ordered : (FileTree.shareAll library.children).Pairwise fun first second =>
      first.precedes second = true := by decide +kernel
  exact FileTree.gather_of_ordered ordered

/-- The files in front of `library`, and the files in it. -/
theorem filesBelow_library {before : List FileTree}
    (ordered : (FileTree.shareAll (before ++ [library])).Pairwise fun first second =>
      first.precedes second = true) :
    filesBelow (.node { name := "" } (before ++ [library])) {} =
      before.flatMap (fun child => (FileTree.share child).files) ++
        [{ names := ["lib", ".gitignore"], bytes := "x.js\n".toUTF8.toList },
          { names := ["lib", "x.js"], bytes := [] }] := by
  have below : (FileTree.share library).files =
      (FileTree.files library).map (FoundFile.within "lib") := rfl
  rw [filesBelow_of_ordered ordered, FileTree.shareAll_eq, List.flatMap_map,
    List.flatMap_append, List.flatMap_singleton, below, files_library]
  rfl

def twoIgnoreFiles : FileTree :=
  .node { name := "" } ([
    .node { name := ".gitignore", content := .file "z\n".toUTF8.toList } [],
    .node { name := "a.js", content := .file [] } []] ++ [library])

theorem find_nested_twoIgnoreFiles :
    let ignoring : List IgnoreFile :=
      [{ folder := [], rules := [{ written := "(^|[/])z$".toList }] },
        { folder := ["lib"], rules := [{ written := "(^|[/])x\\.js$".toList }] }]
    ignoreFiles twoIgnoreFiles {} (filesBelow twoIgnoreFiles {}) true = .ok ignoring ∧
      (∀ file ∈ filesBelow twoIgnoreFiles {}, isScript file = true →
        ∀ other ∈ ignoring, other.Answers file.names) ∧
      (find twoIgnoreFiles {} {} true = .error .outside ↔
        StrandedIn twoIgnoreFiles {}) ∧
      (¬ StrandedIn twoIgnoreFiles {} →
        ∃ result, find twoIgnoreFiles {} {} true = .ok result ∧
          ∀ file, file ∈ result ↔ file ∈ filesBelow twoIgnoreFiles {} ∧
            IsScriptName file.name ∧ ¬ HiddenIn twoIgnoreFiles {} file.names ∧
            Selection.Allows {} file.text) := by
  intro ignoring
  have found := @filesBelow_library [
    .node { name := ".gitignore", content := .file "z\n".toUTF8.toList } [],
    .node { name := "a.js", content := .file [] } []] (by decide +kernel)
  have read : ignoreFiles twoIgnoreFiles {} (filesBelow twoIgnoreFiles {}) true = .ok ignoring := by
    rw [twoIgnoreFiles, found]
    decide +kernel
  have answers : ∀ file ∈ filesBelow twoIgnoreFiles {}, isScript file = true →
      ∀ other ∈ ignoring, other.Answers file.names := by
    rw [twoIgnoreFiles, found]
    decide +kernel
  exact ⟨read, answers, find_nested twoIgnoreFiles {} {} ignoring read answers⟩

/-- A single ignore file, and a script outside of its folder. -/
def strandedScript : FileTree :=
  .node { name := "" } ([.node { name := "a.js", content := .file [] } []] ++ [library])

theorem find_strandedScript : find strandedScript {} {} true = .error .outside := by
  have found := @filesBelow_library [.node { name := "a.js", content := .file [] } []]
    (by decide +kernel)
  rw [find, strandedScript, found]
  decide +kernel

end Discovery

end CallbackLint
