import CallbackLint.Proofs.Discovery.Selection
import CallbackLint.Proofs.Files.Difference

namespace CallbackLint

namespace Discovery

/-!
# Finding scripts in trees that differ

What is found depends on the scripts and on the ignore files below a folder.  So trees
that differ in other files hold the same scripts.  And if some of the scripts are taken
away, then the others are found as before, provided that none of those that are gone is
an ignore file as well.
-/

open FileTree

variable {ways : List String → Prop} {files other : FileTree} {root : Location}

/-! ## Listings -/

/-- Below what is no folder nothing is listed. -/
theorem filesBelow_of_plain
    (plain : ∀ way, files.wayTo root = .ok way → IsPlain (files.look way)) :
    filesBelow files root = [] := by
  rw [filesBelow]
  cases reached : files.reach root with
  | error fault => rfl
  | ok tree =>
      rcases exists_wayTo_of_reach reached with ⟨way, led, there⟩
      have noFolder : tree.content ≠ .folder := by
        intro isFolder
        have here := plain way led
        rw [look_of_at? there, isFolder] at here
        exact here
      exact if_neg noFolder

/-- A listed file is reached along its names from where the folder is. -/
theorem exists_way_of_mem (proper : files.IsProper) {file : FoundFile}
    (listed : file ∈ filesBelow files root) :
    ∃ way, files.wayTo root = .ok way ∧ files.look way = some .folder ∧
      files.wayTo (root.below file.names) = .ok (way ++ file.names) ∧
      ∃ readable, files.look (way ++ file.names) = some (.file file.bytes readable) := by
  rcases mem_filesBelow_iff.mp listed with ⟨tree, reached, leads⟩
  rcases exists_wayTo_of_reach reached with ⟨way, led, there⟩
  have properTree := proper.at? there
  have folder := look_of_at? there
  rw [leads.content_eq] at folder
  refine ⟨way, led, folder, wayTo_below led there properTree leads, ?_⟩
  rw [look_append there]
  exact ((leads_iff properTree).mp leads).2.2

theorem leadTo_map_iff {listed : List FoundFile} {way : List String} :
    files.LeadTo (listed.map fun file => root.below file.names) way ↔
      ∃ file ∈ listed, files.wayTo (root.below file.names) = .ok way := by
  simp only [LeadTo, List.mem_map, exists_exists_and_eq_and]

/-- Of all ways through a folder, listed files are at the ends of their names. -/
theorem leadTo_below_iff (proper : files.IsProper) {listed : List FoundFile}
    (among : ∀ file ∈ listed, file ∈ filesBelow files root) {way : List String}
    (led : files.wayTo root = .ok way) (names : List String) :
    files.LeadTo (listed.map fun file => root.below file.names) (way ++ names) ↔
      names ∈ listed.map FoundFile.names := by
  have own : ∀ file ∈ listed, files.wayTo (root.below file.names) = .ok (way ++ file.names) := by
    intro file member
    rcases exists_way_of_mem proper (among file member) with ⟨start, ledToo, _, ledBelow, _⟩
    rw [led] at ledToo
    cases ledToo
    exact ledBelow
  rw [leadTo_map_iff, List.mem_map]
  constructor
  · rintro ⟨file, member, here⟩
    rw [own file member] at here
    exact ⟨file, member, List.append_cancel_left (Except.ok.inj here)⟩
  · rintro ⟨file, member, same⟩
    exact ⟨file, member, same ▸ own file member⟩

/-- Where listed files are, there are files. -/
theorem isPlain_of_leadTo (proper : files.IsProper) {listed : List FoundFile}
    (among : ∀ file ∈ listed, file ∈ filesBelow files root) {way : List String}
    (leads : files.LeadTo (listed.map fun file => root.below file.names) way) :
    IsPlain (files.look way) := by
  rcases leadTo_map_iff.mp leads with ⟨file, member, here⟩
  rcases exists_way_of_mem proper (among file member) with ⟨start, _, _, led, readable, found⟩
  rw [led] at here
  rw [← Except.ok.inj here, found]
  trivial

/-- The listings of two trees are the same but for the files in which the trees differ. -/
theorem filter_filesBelow (differ : files.DifferIn ways other) (proper : files.IsProper)
    (properToo : other.IsProper) {keep : FoundFile → Bool}
    (outside : ∀ way, files.wayTo root = .ok way →
      ∀ file, keep file = true → ¬ ways (way ++ file.names)) :
    (filesBelow other root).filter keep = (filesBelow files root).filter keep := by
  by_cases here : ∃ way, files.wayTo root = .ok way ∧ ¬ ways way
  · rcases here with ⟨way, led, notInWays⟩
    have ledToo := differ.wayTo_eq led notInWays
    have same := differ.elsewhere way notInWays
    rw [look, look] at same
    rw [filesBelow, filesBelow, reach_eq led, reach_eq ledToo]
    cases there : files.at? way with
    | none =>
        rw [there] at same
        rw [Option.map_eq_none_iff.mp same]
    | some tree =>
        rw [there] at same
        rcases Option.map_eq_some_iff.mp same with ⟨treeToo, thereToo, _⟩
        rw [thereToo]
        exact differ.filter_files there thereToo (proper.at? there) (properToo.at? thereToo)
          (outside way led)
  · have inWays : ∀ way, files.wayTo root = .ok way → ways way := by
      intro way led
      by_contra notInWays
      exact here ⟨way, led, notInWays⟩
    have inWaysToo : ∀ way, other.wayTo root = .ok way → ways way := by
      intro way ledToo
      by_contra notInWays
      exact here ⟨way, differ.symm.wayTo_eq ledToo notInWays, notInWays⟩
    rw [filesBelow_of_plain fun way led => differ.plain way (inWays way led),
      filesBelow_of_plain fun way led => differ.plainToo way (inWaysToo way led)]

/-! ## Choosing from a part of a listing -/

variable {judge : List String → Except IgnoreFault Bool} {selection : Selection}

theorem keepUnignored_filter {found kept : List FoundFile} (keep : FoundFile → Bool)
    (succeeds : keepUnignored judge found = .ok kept) :
    keepUnignored judge (found.filter keep) = .ok (kept.filter keep) ∧ kept.Sublist found := by
  rcases keepUnignored_eq_ok_iff.mp succeeds with ⟨answers, rfl⟩
  refine ⟨keepUnignored_eq_ok_iff.mpr ⟨?_, List.filter_comm _ _ _⟩, List.filter_sublist⟩
  intro file member
  exact answers file (List.mem_of_mem_filter member)

theorem exists_kept {found result : List FoundFile}
    (succeeds : select judge selection found = .ok result) :
    ∃ kept, keepUnignored judge (found.filter isScript) = .ok kept ∧
      (kept.filter selection.has).Sublist (found.filter isScript) ∧
      result = (kept.filter selection.has).mergeSort fun first second =>
        first.text ≤ second.text := by
  rw [select] at succeeds
  cases keeps : keepUnignored judge (found.filter isScript) with
  | error fault =>
      rw [keeps] at succeeds
      cases succeeds
  | ok kept =>
      rw [keeps] at succeeds
      cases succeeds
      exact ⟨kept, rfl, List.filter_sublist.trans (keepUnignored_filter isScript keeps).2, rfl⟩

theorem mem_of_select {found result : List FoundFile}
    (succeeds : select judge selection found = .ok result) {file : FoundFile}
    (member : file ∈ result) : file ∈ found ∧ isScript file = true := by
  rcases exists_kept succeeds with ⟨kept, keeps, among, sorted⟩
  rw [sorted, List.mem_mergeSort] at member
  exact List.mem_filter.mp (among.subset member)

/-- Files with different texts are chosen in the order of these. -/
theorem pairwise_of_select {found result : List FoundFile}
    (distinct : (found.map FoundFile.text).Nodup)
    (succeeds : select judge selection found = .ok result) :
    result.Pairwise fun first second => first.text < second.text := by
  rcases exists_kept succeeds with ⟨kept, keeps, among, sorted⟩
  rw [sorted]
  apply pairwise_mergeSort_text
  exact distinct.sublist ((among.trans List.filter_sublist).map FoundFile.text)

/-- Files are in the same order whether some are taken away before or after sorting. -/
theorem mergeSort_filter {found : List FoundFile} (distinct : (found.map FoundFile.text).Nodup)
    (keep : FoundFile → Bool) :
    (found.filter keep).mergeSort (fun first second => first.text ≤ second.text) =
      (found.mergeSort fun first second => first.text ≤ second.text).filter keep := by
  have part : (found.filter keep).Sublist found := List.filter_sublist
  have perm := List.mergeSort_perm (found.filter keep) fun first second =>
    first.text ≤ second.text
  have permToo := (List.mergeSort_perm found fun first second =>
    first.text ≤ second.text).filter keep
  apply List.Perm.eq_of_pairwise _
    (pairwise_mergeSort_text (distinct.sublist (part.map FoundFile.text)))
    ((pairwise_mergeSort_text distinct).filter keep) (perm.trans permToo.symm)
  intro first second _ _ less more
  exact False.elim (String.lt_asymm less more)

/-- If some of the files are taken away, then the others are chosen as before. -/
theorem select_filter {found result : List FoundFile}
    (distinct : (found.map FoundFile.text).Nodup)
    (succeeds : select judge selection found = .ok result) (keep : FoundFile → Bool) :
    select judge selection (found.filter keep) = .ok (result.filter keep) := by
  rcases exists_kept succeeds with ⟨kept, keeps, among, sorted⟩
  have filtered := (keepUnignored_filter keep keeps).1
  have keptDistinct := distinct.sublist ((among.trans List.filter_sublist).map FoundFile.text)
  rw [sorted, ← mergeSort_filter keptDistinct keep, select, List.filter_comm isScript, filtered,
    List.filter_comm keep]
  rfl

/-! ## The search -/

theorem find_eq_ok_iff {nested : Bool} {result : List FoundFile} :
    find files root selection nested = .ok result ↔
      ∃ ignoring, ignoreFiles files root (filesBelow files root) nested = .ok ignoring ∧
        select (IgnoreFile.judge ignoring) selection (filesBelow files root) = .ok result := by
  rw [find]
  cases ignoreFiles files root (filesBelow files root) nested with
  | error fault =>
      constructor
      · intro impossible
        cases impossible
      · rintro ⟨ignoring, impossible, _⟩
        cases impossible
  | ok ignoring =>
      constructor
      · intro selected
        exact ⟨ignoring, rfl, selected⟩
      · rintro ⟨others, same, selected⟩
        cases same
        exact selected

/-- Files that are in order when they are selected stay so. -/
theorem find_of_ordered {nested : Bool} {found kept : List FoundFile} {ignoring : List IgnoreFile}
    (listed : filesBelow files root = found)
    (read : ignoreFiles files root found nested = .ok ignoring)
    (keeps : keepUnignored (IgnoreFile.judge ignoring) (found.filter isScript) = .ok kept)
    (ordered : (kept.filter selection.has).Pairwise fun first second => first.text ≤ second.text) :
    find files root selection nested = .ok (kept.filter selection.has) := by
  have sorted := List.mergeSort_of_pairwise (ordered.imp fun le => decide_eq_true le)
  apply find_eq_ok_iff.mpr
  refine ⟨ignoring, listed.symm ▸ read, ?_⟩
  rw [select, listed, keeps]
  exact congrArg Except.ok sorted

/-- The one ignore file right in a folder. -/
theorem ignoreFiles_root {found : List FoundFile} {ignoring : List IgnoreFile}
    (read : ignoreFiles files root found false = .ok ignoring) :
    (files.file? (root.below [IgnoreFile.fileName]) = none ∧ ignoring = []) ∨
      ∃ bytes file, files.file? (root.below [IgnoreFile.fileName]) = some bytes ∧
        readIgnoreFile files root [] = .ok file ∧ IgnoreFile.read [] bytes = .ok file ∧
        ignoring = [file] := by
  simp only [ignoreFiles, Bool.false_eq_true, if_false] at read
  split at read
  · cases opened : readIgnoreFile files root [] with
    | error fault =>
        rw [opened] at read
        cases read
    | ok file =>
        rw [opened] at read
        cases read
        rcases readIgnoreFile_eq_ok_iff.mp opened with ⟨bytes, readable, parsed⟩
        exact Or.inr ⟨bytes, file, file?_of_read readable, rfl, parsed, rfl⟩
  · next nowhere =>
      cases read
      exact Or.inl ⟨Option.not_isSome_iff_eq_none.mp nowhere, rfl⟩

/-- What is done with the items of a list depends on what is done with each. -/
theorem mapM_congr {α β ε : Type} {act actToo : α → Except ε β} {items : List α}
    (same : ∀ item ∈ items, act item = actToo item) : items.mapM act = items.mapM actToo := by
  induction items with
  | nil => rfl
  | cons item rest inductionHypothesis =>
      rw [List.forall_mem_cons] at same
      rw [List.mapM_cons, List.mapM_cons, same.1, inductionHypothesis same.2]

theorem folder_append_fileName {file : FoundFile} (named : file.name = IgnoreFile.fileName) :
    file.folder ++ [IgnoreFile.fileName] = file.names := by
  have nonempty : file.names ≠ [] := by
    intro none
    rw [FoundFile.name, none] at named
    revert named
    decide
  rw [← named, FoundFile.folder, FoundFile.name, List.getLastD_eq_getLast?,
    List.getLast?_eq_some_getLast nonempty, Option.getD_some, List.dropLast_append_getLast]

/-- The ignore files depend on the listing and on what is read for it, or on the one right in
the folder. -/
theorem ignoreFiles_congr {found foundToo : List FoundFile} {nested : Bool}
    (listed : foundToo.filter (fun file => file.name = IgnoreFile.fileName) =
      found.filter fun file => file.name = IgnoreFile.fileName)
    (opened : ∀ file ∈ found, file.name = IgnoreFile.fileName →
      other.read (root.below file.names) = files.read (root.below file.names))
    (single : nested = false → files.SameFile other (root.below [IgnoreFile.fileName])) :
    ignoreFiles other root foundToo nested = ignoreFiles files root found nested := by
  cases nested with
  | true =>
      rw [ignoreFiles, ignoreFiles, if_pos rfl, if_pos rfl, listed]
      apply mapM_congr
      intro file member
      rcases List.mem_filter.mp member with ⟨inFound, named⟩
      have same := opened file inFound (of_decide_eq_true named)
      rw [← folder_append_fileName (of_decide_eq_true named)] at same
      rw [readIgnoreFile, readIgnoreFile, same]
  | false =>
      have same := single rfl
      simp only [ignoreFiles, Bool.false_eq_true, if_false, same.found]
      cases here : files.file? (root.below [IgnoreFile.fileName]) with
      | none => rfl
      | some bytes =>
          simp only [readIgnoreFile, List.nil_append, same.opened bytes here]

/-- Whether a search looks at files of a name. -/
def matters (name : String) : Bool :=
  name = IgnoreFile.fileName || endings.contains (endingOf name)

theorem getLast?_of_matters {way : List String} {file : FoundFile}
    (material : matters file.name = true) : (way ++ file.names).getLast? = some file.name := by
  have nonempty : file.names ≠ [] := by
    intro none
    rw [FoundFile.name, none] at material
    revert material
    decide
  rw [List.getLast?_append_of_ne_nil way nonempty, FoundFile.name, List.getLastD_eq_getLast?,
    List.getLast?_eq_some_getLast nonempty, Option.getD_some]

/-- A listed file of a name that matters is not among the files in which the trees differ. -/
theorem read_of_matters (differ : files.DifferIn ways other) (proper : files.IsProper)
    (immaterial : ∀ way name, ways way → way.getLast? = some name → matters name = false)
    {file : FoundFile} (listed : file ∈ filesBelow files root)
    (material : matters file.name = true) :
    other.read (root.below file.names) = files.read (root.below file.names) := by
  rcases exists_way_of_mem proper listed with ⟨way, _, _, led, _⟩
  apply (differ.read_eq led _).1
  intro inWays
  have none := immaterial _ _ inWays (getLast?_of_matters material)
  rw [material] at none
  cases none

/-- A search does not notice files at which it does not look. -/
theorem find_eq (differ : files.DifferIn ways other) (proper : files.IsProper)
    (properToo : other.IsProper) {nested : Bool}
    (immaterial : ∀ way name, ways way → way.getLast? = some name → matters name = false)
    (single : nested = false → files.SameFile other (root.below [IgnoreFile.fileName])) :
    find other root selection nested = find files root selection nested := by
  have listed : (filesBelow other root).filter (fun file => matters file.name) =
      (filesBelow files root).filter fun file => matters file.name := by
    apply filter_filesBelow differ proper properToo
    intro way led file material inWays
    have none := immaterial _ _ inWays (getLast?_of_matters material)
    rw [material] at none
    cases none
  have material {part : FoundFile → Bool}
      (among : ∀ file, part file = true → matters file.name = true) :
      (filesBelow other root).filter part = (filesBelow files root).filter part := by
    have narrow (found : List FoundFile) :
        (found.filter fun file => matters file.name).filter part = found.filter part := by
      rw [List.filter_filter]
      apply List.filter_congr
      intro file _
      cases chosen : part file with
      | false => rfl
      | true => rw [among file chosen, Bool.and_self]
    rw [← narrow, listed, narrow]
  have ignoring : (filesBelow other root).filter (fun file => file.name = IgnoreFile.fileName) =
      (filesBelow files root).filter fun file => file.name = IgnoreFile.fileName :=
    material fun file named => by rw [matters, named, Bool.true_or]
  have scripts : (filesBelow other root).filter isScript =
      (filesBelow files root).filter isScript :=
    material fun file script => by
      rw [isScript] at script
      rw [matters, script, Bool.or_true]
  have opened : ∀ file ∈ filesBelow files root, file.name = IgnoreFile.fileName →
      other.read (root.below file.names) = files.read (root.below file.names) := by
    intro file member named
    apply read_of_matters differ proper immaterial member
    rw [matters, named]
    rfl
  rw [find, find, ignoreFiles_congr ignoring opened single]
  simp only [select, scripts]

/-- The ignore file right in a folder is a link that leads to one of some ways. -/
def LinksInto (files : FileTree) (root : Location) (ways : List String → Prop) : Prop :=
  (∃ way target, files.wayTo root = .ok way ∧
    files.look (way ++ [IgnoreFile.fileName]) = some (.link target)) ∧
    ∃ way, ways way ∧ files.wayTo (root.below [IgnoreFile.fileName]) = .ok way

/-- What is there under the name of an ignore file is one.  So an ignore file cannot be among
other files, unless it is a link to one of them. -/
theorem linksInto_of_leads
    (immaterial : ∀ way name, ways way → way.getLast? = some name → matters name = false)
    {way : List String} (led : files.wayTo (root.below [IgnoreFile.fileName]) = .ok way)
    (inWays : ways way) : LinksInto files root ways := by
  refine ⟨?_, way, inWays, led⟩
  by_contra notLinked
  have noLink start target (ledToo : files.wayTo root = .ok start) :
      files.look (start ++ [IgnoreFile.fileName]) ≠ some (.link target) := fun link =>
    notLinked ⟨start, target, ledToo, link⟩
  rcases exists_wayTo_of_below led (by decide) noLink with ⟨start, _, _, same⟩
  have none := immaterial way IgnoreFile.fileName inWays (by simp [same])
  revert none
  decide

/-- So the ignore file of a folder is the same in trees that differ in other files. -/
theorem sameFile_of_not_linksInto (differ : files.DifferIn ways other)
    (immaterial : ∀ way name, ways way → way.getLast? = some name → matters name = false)
    (apart : ¬ LinksInto files root ways) (apartToo : ¬ LinksInto other root ways) :
    files.SameFile other (root.below [IgnoreFile.fileName]) := by
  apply differ.sameFile
  · intro way led inWays
    exact apart (linksInto_of_leads immaterial led inWays)
  · intro way led inWays
    exact absurd (linksInto_of_leads immaterial led inWays) apartToo

/-- If some of the scripts are taken away, then the others are found as before. -/
theorem find_filter (differ : files.DifferIn ways other) (proper : files.IsProper)
    (properToo : other.IsProper) (vanish : ∀ way, ways way → other.look way = none)
    {keep : FoundFile → Bool}
    (keeps : ∀ way, files.wayTo root = .ok way →
      ∀ file, keep file = true ↔ ¬ ways (way ++ file.names))
    (ignoring : ∀ file, file.name = IgnoreFile.fileName → keep file = true) {nested : Bool}
    (single : nested = false → files.SameFile other (root.below [IgnoreFile.fileName]))
    {result : List FoundFile} (found : find files root selection nested = .ok result) :
    find other root selection nested = .ok (result.filter keep) := by
  have remain : (filesBelow other root).filter keep = filesBelow other root := by
    apply List.filter_eq_self.mpr
    intro file listed
    rcases exists_way_of_mem properToo listed with ⟨way, ledToo, folder, _, readable, here⟩
    have notInWays : ¬ ways way := by
      intro inWays
      rw [vanish way inWays] at folder
      cases folder
    apply (keeps way (differ.symm.wayTo_eq ledToo notInWays) file).mpr
    intro inWays
    rw [vanish _ inWays] at here
    cases here
  have listed : filesBelow other root = (filesBelow files root).filter keep := by
    rw [← remain]
    apply filter_filesBelow differ proper properToo
    intro way led file kept
    exact (keeps way led file).mp kept
  have ignoreFiles : (filesBelow other root).filter
        (fun file => file.name = IgnoreFile.fileName) =
      (filesBelow files root).filter fun file => file.name = IgnoreFile.fileName := by
    rw [listed, List.filter_filter]
    apply List.filter_congr
    intro file _
    by_cases named : file.name = IgnoreFile.fileName
    · rw [ignoring file named, Bool.and_true]
    · rw [decide_eq_false named, Bool.false_and]
  have opened : ∀ file ∈ filesBelow files root, file.name = IgnoreFile.fileName →
      other.read (root.below file.names) = files.read (root.below file.names) := by
    intro file member named
    rcases exists_way_of_mem proper member with ⟨way, led, _, ledBelow, _⟩
    exact (differ.read_eq ledBelow ((keeps way led file).mp (ignoring file named))).1
  rcases find_eq_ok_iff.mp found with ⟨files, read, selected⟩
  apply find_eq_ok_iff.mpr
  refine ⟨files, (ignoreFiles_congr ignoreFiles opened single).trans read, ?_⟩
  rw [listed]
  exact select_filter (nodup_texts_filesBelow proper.isWellNamed) selected keep

end Discovery

end CallbackLint
