import CallbackLint.Checking
import CallbackLint.Grammar.Program
import CallbackLint.Proofs.Concrete.Extent
import CallbackLint.Proofs.Discovery.Difference
import CallbackLint.Proofs.Rule.Recursion

namespace CallbackLint

namespace Checking

/-!
# Checking a folder, file by file

Each script that is found has its turn, in the order of the texts.  If it can be read,
then its turn adds what a check of its bytes finds, under its text; otherwise it adds a
note that the script is left out and nothing else.  So the findings of a folder are those
of its readable scripts, put together, whatever parser turns bytes into scripts.

A tree without the scripts that cannot be read has the same diagnostics.  Such a script might
still matter as the ignore file of the folder, which may be a link to it.  But then the search
fails, since it cannot open its ignore file.
-/

open FileTree

/-! ## One turn -/

variable {parse : List UInt8 → Script} {files : FileTree} {names : List String} {root : Location}
  {file : FoundFile}

/-- What a check of the listed bytes of a file finds. -/
def findingsIn (parse : List UInt8 → Script) (names : List String) (file : FoundFile) :
    Findings :=
  (parse file.bytes).check names (some file.text)

def isReadable (files : FileTree) (root : Location) (file : FoundFile) : Bool :=
  (files.read (root.below file.names)).isOk

/-- What is noted at the turn of a file. -/
def turn (parse : List UInt8 → Script) (files : FileTree) (names : List String)
    (root : Location) (file : FoundFile) : List Note :=
  let location := root.below file.names
  .reading location.text ::
    match files.read location with
    | .ok _ => (findingsIn parse names file).notes
    | .error fault => [.unreadable location.text (fault.message location)]

/-- A file is found with its bytes below a folder, unless it must not be read.  A listing tells the
bytes in any case, so this is where the two ways to look at a file meet.  There is no other fault,
since a listing only holds regular files. -/
structure IsListed (files : FileTree) (root : Location) (file : FoundFile) : Prop where
  named : file.names ≠ []
  read : files.read (root.below file.names) = .ok file.bytes ∨
    files.read (root.below file.names) = .error .denied

/-- A listed file is readable and has its bytes, or it is not and is denied. -/
theorem IsListed.cases (listed : IsListed files root file) :
    (isReadable files root file = true ∧
        files.read (root.below file.names) = .ok file.bytes) ∨
      (isReadable files root file = false ∧
        files.read (root.below file.names) = .error .denied) := by
  rcases listed.read with read | denied
  · left
    refine ⟨?_, read⟩
    rw [isReadable, read]
    rfl
  · right
    refine ⟨?_, denied⟩
    rw [isReadable, denied]
    rfl

theorem isListed_of_mem (proper : files.IsProper)
    (listed : file ∈ Discovery.filesBelow files root) : IsListed files root file := by
  rcases Discovery.mem_filesBelow_iff.mp listed with ⟨tree, _, leads⟩
  rcases Discovery.exists_way_of_mem proper listed with ⟨way, _, _, led, readable, here⟩
  refine ⟨leads.names_ne_nil, ?_⟩
  rw [read_of_look led here]
  cases readable with
  | true => exact Or.inl rfl
  | false => exact Or.inr rfl

theorem shownFrom_below (root : Location) {names : List String} (named : names ≠ []) :
    root.shownFrom (root.below names) = Location.join names := by
  rw [Location.shownFrom, Location.namesFrom?_below]
  cases names with
  | nil => exact False.elim (named rfl)
  | cons name rest => rfl

/-- The progress after the turns of some more files. -/
def Progress.after (parse : List UInt8 → Script) (files : FileTree) (names : List String)
    (root : Location) (progress : Progress) (found : List FoundFile) : Progress where
  findings :=
    { diagnostics := progress.findings.diagnostics ++
        (found.filter (isReadable files root)).flatMap fun file =>
          (findingsIn parse names file).diagnostics
      notes := progress.findings.notes ++ found.flatMap (turn parse files names root) }
  checked := progress.checked + (found.filter (isReadable files root)).length

theorem Progress.after_append (progress : Progress) (first second : List FoundFile) :
    (progress.after parse files names root first).after parse files names root second =
      progress.after parse files names root (first ++ second) := by
  simp only [after, List.filter_append, List.flatMap_append, List.length_append, List.append_assoc,
    Nat.add_assoc]

theorem next_of_listed (listed : IsListed files root file) (progress : Progress) :
    progress.next parse files names root (root.below file.names) =
      progress.after parse files names root [file] := by
  have shown : root.shownFrom (root.below file.names) = file.text :=
    shownFrom_below root listed.named
  rw [Progress.after, List.flatMap_singleton, List.filter_cons, List.filter_nil, turn,
    Progress.next, checkFile]
  rcases listed.cases with ⟨readable, read⟩ | ⟨unreadable, denied⟩
  · rw [readable, if_pos rfl, List.flatMap_singleton, read]
    simp only [shown]
    rfl
  · rw [unreadable, if_neg Bool.false_ne_true, List.flatMap_nil, List.append_nil, denied]
    rfl

/-- The files have their turns one after the other. -/
theorem foldl_next {found : List FoundFile} (listed : ∀ file ∈ found, IsListed files root file)
    (progress : Progress) :
    (found.map fun file => root.below file.names).foldl (Progress.next parse files names root)
      progress = progress.after parse files names root found := by
  induction found generalizing progress with
  | nil =>
      rw [Progress.after, List.filter_nil, List.flatMap_nil, List.flatMap_nil, List.append_nil,
        List.append_nil]
      rfl
  | cons file rest inductionHypothesis =>
      have later := inductionHypothesis fun other member =>
        listed other (List.mem_cons_of_mem _ member)
      rw [List.map_cons, List.foldl_cons, next_of_listed (listed file List.mem_cons_self), later,
        Progress.after_append]
      rfl

/-! ## All turns -/

/-- The files that settings select. -/
def selectionOf (settings : Settings) : Discovery.Selection :=
  { included := settings.included, excluded := settings.excluded }

/-- What checking some files one after the other comes to, with the summary at the end. -/
def checkAll (parse : List UInt8 → Script) (files : FileTree) (names : List String)
    (root : Location) (found : List FoundFile) : Findings :=
  let progress := (found.map fun file => root.below file.names).foldl
    (Progress.next parse files names root) {}
  { progress.findings with notes := progress.findings.notes ++ [progress.summary] }

/-- To check a folder is to check the files that are found. -/
theorem checkFolder_eq_map (parse : List UInt8 → Script) (files : FileTree) (settings : Settings)
    (root : Location) :
    checkFolder parse files settings root =
      (Discovery.find files root (selectionOf settings) settings.nestedIgnoring).map
        (checkAll parse files settings.options.names root) := by
  rw [checkFolder, selectionOf]
  cases Discovery.find files root _ settings.nestedIgnoring <;> rfl

/-- What the turns of some files come to. -/
def findingsOf (parse : List UInt8 → Script) (files : FileTree) (names : List String)
    (root : Location) (found : List FoundFile) : Findings :=
  let diagnostics := (found.filter (isReadable files root)).flatMap fun file =>
    (findingsIn parse names file).diagnostics
  { diagnostics
    notes := found.flatMap (turn parse files names root) ++
      [.summary (found.filter (isReadable files root)).length diagnostics.length] }

theorem checkAll_eq {found : List FoundFile} (listed : ∀ file ∈ found, IsListed files root file) :
    checkAll parse files names root found = findingsOf parse files names root found := by
  rw [checkAll, foldl_next listed, Progress.summary, Progress.after, Nat.zero_add]
  rfl

/-- What a check of a folder finds, given the files that are found in it. -/
theorem checkFolder_eq {settings : Settings} {found : List FoundFile}
    (discovered : Discovery.find files root (selectionOf settings) settings.nestedIgnoring =
      .ok found)
    (listed : ∀ file ∈ found, IsListed files root file) :
    checkFolder parse files settings root =
      .ok (findingsOf parse files settings.options.names root found) := by
  rw [checkFolder_eq_map, discovered, Except.map, checkAll_eq listed]

/-- A check of some files depends on what is read of them. -/
theorem checkAll_congr {other : FileTree} {found : List FoundFile}
    (same : ∀ file ∈ found,
      other.read (root.below file.names) = files.read (root.below file.names)) :
    checkAll parse other names root found = checkAll parse files names root found := by
  have turns : (found.map fun file => root.below file.names).foldl
        (Progress.next parse other names root) {} =
      (found.map fun file => root.below file.names).foldl
        (Progress.next parse files names root) {} := by
    apply List.foldl_ext
    intro progress location member
    rcases List.mem_map.mp member with ⟨file, listed, rfl⟩
    rw [Progress.next, Progress.next, checkFile, checkFile, same file listed]
  rw [checkAll, checkAll, turns]

/-- A diagnostic is one of a script that is read. -/
def IsOfScript (parse : List UInt8 → Script) (files : FileTree) (names : List String)
    (diagnostic : Diagnostic) : Prop :=
  ∃ location bytes path, files.read location = .ok bytes ∧
    diagnostic ∈ ((parse bytes).check names path).diagnostics

theorem isOfScript_of_mem_next {progress : Progress} {location : Location}
    {diagnostic : Diagnostic}
    (member : diagnostic ∈
      (progress.next parse files names root location).findings.diagnostics) :
    diagnostic ∈ progress.findings.diagnostics ∨
      IsOfScript parse files names diagnostic := by
  rw [Progress.next, checkFile] at member
  cases read : files.read location with
  | error fault =>
      rw [read] at member
      exact Or.inl member
  | ok bytes =>
      rw [read] at member
      rcases List.mem_append.mp member with before | here
      · exact Or.inl before
      · exact Or.inr ⟨location, bytes, _, read, here⟩

theorem isOfScript_of_mem_foldl {locations : List Location} {progress : Progress}
    {diagnostic : Diagnostic}
    (member : diagnostic ∈ (locations.foldl (Progress.next parse files names root)
      progress).findings.diagnostics) :
    diagnostic ∈ progress.findings.diagnostics ∨
      IsOfScript parse files names diagnostic := by
  induction locations generalizing progress with
  | nil => exact Or.inl member
  | cons location rest inductionHypothesis =>
      rcases inductionHypothesis member with now | fromRest
      · exact isOfScript_of_mem_next now
      · exact Or.inr fromRest

theorem isOfScript_of_mem_checkFolder {settings : Settings} {findings : Findings}
    (checked : checkFolder parse files settings root = .ok findings) {diagnostic : Diagnostic}
    (member : diagnostic ∈ findings.diagnostics) :
    IsOfScript parse files settings.options.names diagnostic := by
  rw [checkFolder_eq_map] at checked
  cases discovered : Discovery.find files root (selectionOf settings) settings.nestedIgnoring with
  | error fault =>
      rw [discovered] at checked
      cases checked
  | ok found =>
      rw [discovered] at checked
      cases checked
      exact (isOfScript_of_mem_foldl member).resolve_left List.not_mem_nil

/-- A parser stays within whatever can be read. -/
def StaysWithin (parse : List UInt8 → Script) (files : FileTree) : Prop :=
  ∀ location bytes, files.read location = .ok bytes → (parse bytes).StaysWithin bytes

theorem staysWithin_of_readable
    (each : ∀ bytes ∈ files.readable, (parse bytes).StaysWithin bytes) :
    StaysWithin parse files :=
  fun _ bytes read => each bytes (mem_readable_of_read read)

/-- Then a document has room for all diagnostics of a folder. -/
theorem StaysWithin.overflows_eq_nil (within : StaysWithin parse files) {settings : Settings}
    {findings : Findings} (checked : checkFolder parse files settings root = .ok findings) :
    overflows findings.diagnostics = [] := by
  apply overflows_eq_nil_iff.mpr
  intro diagnostic member
  rcases isOfScript_of_mem_checkFolder checked member with ⟨location, bytes, _, read, inScript⟩
  exact (within location bytes read).fits inScript

/-! ## What the turns add -/

def skips : Note → Bool
  | .unreadable .. => true
  | _ => false

theorem path_of_mem_findingsIn {diagnostic : Diagnostic}
    (member : diagnostic ∈ (findingsIn parse names file).diagnostics) :
    diagnostic.path = some file.text := by
  rw [findingsIn, Script.check, Tree.check_eq] at member
  rcases List.mem_filterMap.mp member with ⟨sighting, _, reported⟩
  rw [Sighting.report?] at reported
  split at reported
  · cases reported
    rfl
  · cases reported

/-- The check of a file leaves none out. -/
theorem filter_skips_findingsIn (parse : List UInt8 → Script) (names : List String)
    (file : FoundFile) : (findingsIn parse names file).notes.filter skips = [] := by
  apply List.filter_eq_nil_iff.mpr
  intro note member
  rw [findingsIn, Script.check, Tree.check_eq] at member
  rcases List.mem_append.mp member with malformed | noted
  · rw [Script.notes] at malformed
    split at malformed
    · rw [List.mem_singleton.mp malformed]
      exact Bool.false_ne_true
    · cases malformed
  · rcases List.mem_filterMap.mp noted with ⟨sighting, _, classified⟩
    rw [Sighting.note?] at classified
    split at classified
    · cases classified
      exact Bool.false_ne_true
    · cases classified

def skipping (root : Location) (file : FoundFile) : Note :=
  .unreadable (root.below file.names).text (AccessFault.denied.message (root.below file.names))

/-- The scripts among those that are found that cannot be read. -/
def unreadable (files : FileTree) (root : Location) (found : List FoundFile) : List FoundFile :=
  found.filter fun file => !isReadable files root file

/-- In the turns, just what cannot be read is left out. -/
theorem filter_skips_turns {found : List FoundFile}
    (listed : ∀ file ∈ found, IsListed files root file) :
    (found.flatMap (turn parse files names root)).filter skips =
      (unreadable files root found).map (skipping root) := by
  induction found with
  | nil => rfl
  | cons file rest inductionHypothesis =>
      have later := inductionHypothesis fun other member =>
        listed other (List.mem_cons_of_mem _ member)
      rw [List.flatMap_cons, List.filter_append, later, unreadable, unreadable, List.filter_cons,
        turn]
      rcases (listed file List.mem_cons_self).cases with ⟨readable, read⟩ | ⟨unreadable, denied⟩
      · have none := filter_skips_findingsIn parse names file
        rw [readable, read]
        simp only [List.filter_cons, none]
        rfl
      · rw [unreadable, denied]
        rfl

/-- The path of one diagnostic is that of a file that does not come after the file of
another one. -/
def InFileOrder (first second : Diagnostic) : Prop :=
  ∃ path other, first.path = some path ∧ second.path = some other ∧ path ≤ other

/-- Files in order have their diagnostics in order. -/
theorem pairwise_inFileOrder {found : List FoundFile}
    (ordered : found.Pairwise fun first second => first.text < second.text) :
    (found.flatMap fun file => (findingsIn parse names file).diagnostics).Pairwise InFileOrder := by
  rw [List.pairwise_flatMap]
  constructor
  · intro file _
    apply List.pairwise_of_forall_mem_list
    intro first inFirst second inSecond
    exact ⟨_, _, path_of_mem_findingsIn inFirst, path_of_mem_findingsIn inSecond,
      String.le_refl file.text⟩
  · apply ordered.imp
    intro file other less first inFirst second inSecond
    exact ⟨_, _, path_of_mem_findingsIn inFirst, path_of_mem_findingsIn inSecond,
      String.not_lt.mp (String.lt_asymm less)⟩

/-- What a check of a folder finds is what the checks of the readable scripts find, one after the
other.  Each of these checks is one of bytes alone, so nothing is carried from file to file.  The
notes say in which turn a script was left out. -/
structure Concatenates (parse : List UInt8 → Script) (files : FileTree) (settings : Settings)
    (root : Location) (found : List FoundFile) (findings : Findings) : Prop where
  ordered : found.Pairwise fun first second => first.text < second.text
  /-- What is read is what is listed. -/
  bytes : ∀ file ∈ found, isReadable files root file = true →
    files.read (root.below file.names) = .ok file.bytes
  diagnostics : findings.diagnostics = (found.filter (isReadable files root)).flatMap fun file =>
    (findingsIn parse settings.options.names file).diagnostics
  inFileOrder : findings.diagnostics.Pairwise InFileOrder
  notes : findings.notes = found.flatMap (turn parse files settings.options.names root) ++
    [.summary (found.length - (unreadable files root found).length) findings.diagnostics.length]
  /-- Each script that cannot be read is left out with one note. -/
  skipped : findings.notes.filter skips = (unreadable files root found).map (skipping root)

theorem isListed_of_found {settings : Settings} {found : List FoundFile} (proper : files.IsProper)
    (discovered : Discovery.find files root (selectionOf settings) settings.nestedIgnoring =
      .ok found) :
    ∀ file ∈ found, file ∈ Discovery.filesBelow files root ∧ Discovery.isScript file = true ∧
      IsListed files root file := by
  rcases Discovery.find_eq_ok_iff.mp discovered with ⟨ignoring, _, selected⟩
  intro file member
  rcases Discovery.mem_of_select selected member with ⟨listed, isScript⟩
  exact ⟨listed, isScript, isListed_of_mem proper listed⟩

theorem exists_concatenates {settings : Settings} {found : List FoundFile}
    (proper : files.IsProper)
    (discovered : Discovery.find files root (selectionOf settings) settings.nestedIgnoring =
      .ok found) :
    ∃ findings, checkFolder parse files settings root = .ok findings ∧
      Concatenates parse files settings root found findings := by
  have members := isListed_of_found proper discovered
  have listed : ∀ file ∈ found, IsListed files root file := fun file member =>
    (members file member).2.2
  have ordered : found.Pairwise fun first second => first.text < second.text := by
    rcases Discovery.find_eq_ok_iff.mp discovered with ⟨ignoring, _, selected⟩
    exact Discovery.pairwise_of_select
      (Discovery.nodup_texts_filesBelow proper.isWellNamed) selected
  have count : (found.filter (isReadable files root)).length =
      found.length - (unreadable files root found).length := by
    have parts := @List.length_eq_length_filter_add _ found (isReadable files root)
    rw [unreadable]
    omega
  refine ⟨_, checkFolder_eq discovered listed, ordered, ?_, rfl, ?_, ?_, ?_⟩
  · intro file member readable
    rcases (listed file member).cases with ⟨_, read⟩ | ⟨unreadable, _⟩
    · exact read
    · rw [unreadable] at readable
      cases readable
  · exact pairwise_inFileOrder (ordered.filter _)
  · rw [← count]
    rfl
  · rw [findingsOf, List.filter_append, filter_skips_turns listed]
    exact List.append_nil _

/-! ## Without the unreadable files -/

/-- Whether none of some files has the names of a file. -/
def isElsewhere (gone : List FoundFile) (file : FoundFile) : Bool :=
  !(gone.map FoundFile.names).contains file.names

theorem isElsewhere_iff {gone : List FoundFile} :
    isElsewhere gone file = true ↔ file.names ∉ gone.map FoundFile.names := by
  rw [isElsewhere, Bool.not_eq_true', ← Bool.not_eq_true, List.contains_iff_mem]

/-- Whether a file can be read depends on its names. -/
theorem filter_isElsewhere (files : FileTree) (root : Location) (found : List FoundFile) :
    found.filter (isElsewhere (unreadable files root found)) =
      found.filter (isReadable files root) := by
  apply List.filter_congr
  intro file member
  apply Bool.eq_iff_iff.mpr
  rw [isElsewhere_iff, List.mem_map]
  constructor
  · intro elsewhere
    by_contra cannot
    have unread : (!isReadable files root file) = true := by
      rw [Bool.eq_false_iff.mpr cannot]
      rfl
    exact elsewhere ⟨file, List.mem_filter.mpr ⟨member, unread⟩, rfl⟩
  · rintro readable ⟨other, listed, same⟩
    have unread := (List.mem_filter.mp listed).2
    rw [isReadable, same] at unread
    rw [isReadable] at readable
    rw [readable] at unread
    cases unread

section Lacking

variable {settings : Settings} {found : List FoundFile} {other : FileTree}
  (proper : files.IsProper)
  (discovered : Discovery.find files root (selectionOf settings) settings.nestedIgnoring =
    .ok found)

include proper discovered

/-- What is found is among what is listed. -/
theorem unreadable_among :
    ∀ file ∈ unreadable files root found, file ∈ Discovery.filesBelow files root :=
  fun file member =>
    (isListed_of_found proper discovered file (List.mem_filter.mp member).1).1

/-- Files with other names than the unreadable ones are at other ways. -/
theorem isElsewhere_iff_not_leadTo {way : List String} (led : files.wayTo root = .ok way)
    (file : FoundFile) :
    isElsewhere (unreadable files root found) file = true ↔
      ¬ files.LeadTo ((unreadable files root found).map fun file => root.below file.names)
        (way ++ file.names) := by
  rw [isElsewhere_iff, Discovery.leadTo_below_iff proper (unreadable_among proper discovered) led]

/-- No ignore file is a script. -/
theorem isElsewhere_of_ignoreFile {file : FoundFile}
    (named : file.name = IgnoreFile.fileName) :
    isElsewhere (unreadable files root found) file = true := by
  rw [isElsewhere_iff, List.mem_map]
  rintro ⟨script, member, same⟩
  have isScript :=
    (isListed_of_found proper discovered script (List.mem_filter.mp member).1).2.1
  rw [Discovery.isScript, FoundFile.name, same, ← FoundFile.name, named] at isScript
  revert isScript
  decide

/-- Before anything is found, the ignore file of the folder is opened.  So it is none of the
scripts that cannot be read, not even as a link. -/
theorem not_leadTo_of_ignoreFile (notNested : settings.nestedIgnoring = false)
    {way : List String} (led : files.wayTo (root.below [IgnoreFile.fileName]) = .ok way) :
    ¬ files.LeadTo ((unreadable files root found).map fun file => root.below file.names) way := by
  intro leads
  rcases Discovery.leadTo_map_iff.mp leads with ⟨script, member, ledToo⟩
  rcases List.mem_filter.mp member with ⟨inFound, cannot⟩
  rcases isListed_of_found proper discovered script inFound with ⟨listed, _, _⟩
  rcases Discovery.exists_way_of_mem proper listed with ⟨_, _, _, ledBelow, readable, here⟩
  -- The script and the ignore file are one file, and the search has opened it.
  rw [← Except.ok.inj (ledToo.symm.trans ledBelow)] at here
  rcases Discovery.find_eq_ok_iff.mp discovered with ⟨ignoring, read, _⟩
  rw [notNested] at read
  rcases Discovery.ignoreFiles_root read with ⟨nowhere, _⟩ | ⟨bytes, file, _, opened, _, _⟩
  · simp [file?_eq_some_iff.mpr ⟨way, readable, led, here⟩] at nowhere
  · rcases Discovery.readIgnoreFile_eq_ok_iff.mp opened with ⟨_, readToo, _⟩
    rw [List.nil_append, read_of_look led here] at readToo
    cases readable with
    | true => simp [isReadable, read_of_look ledToo here, Except.isOk, Except.toBool] at cannot
    | false => cases readToo

variable
  (lacks : files.Lacks ((unreadable files root found).map fun file => root.below file.names)
    other)

include lacks

theorem differIn_of_lacks :
    files.DifferIn
      (files.LeadTo ((unreadable files root found).map fun file => root.below file.names)) other :=
  lacks.differIn fun _ leads =>
    Discovery.isPlain_of_leadTo proper (unreadable_among proper discovered) leads

/-- Without the files that cannot be read, the others are found. -/
theorem find_of_lacks (properToo : other.IsProper) :
    Discovery.find other root (selectionOf settings) settings.nestedIgnoring =
      .ok (found.filter (isReadable files root)) := by
  have differ := differIn_of_lacks proper discovered lacks
  have single : settings.nestedIgnoring = false →
      files.SameFile other (root.below [IgnoreFile.fileName]) := by
    intro notNested
    apply differ.sameFile
    · intro way led
      exact not_leadTo_of_ignoreFile proper discovered notNested led
    · intro way _ leads
      exact lacks.gone way leads
  rw [← filter_isElsewhere]
  exact Discovery.find_filter differ proper properToo lacks.gone
    (fun _ led => isElsewhere_iff_not_leadTo proper discovered led)
    (fun _ named => isElsewhere_of_ignoreFile proper discovered named) single discovered

/-- The readable files stay as they are. -/
theorem read_of_lacks :
    ∀ file ∈ found.filter (isReadable files root),
      other.read (root.below file.names) = files.read (root.below file.names) := by
  intro file member
  have listed := (isListed_of_found proper discovered file (List.mem_filter.mp member).1).1
  rcases Discovery.exists_way_of_mem proper listed with ⟨way, led, _, ledBelow, _⟩
  rw [← filter_isElsewhere] at member
  have notGone := (isElsewhere_iff_not_leadTo proper discovered led file).mp
    (List.mem_filter.mp member).2
  exact ((differIn_of_lacks proper discovered lacks).read_eq ledBelow notGone).1

/-- Without the files that cannot be read, a tree has the same diagnostics. -/
theorem diagnostics_of_lacks {findings : Findings}
    (concatenates : Concatenates parse files settings root found findings)
    (properToo : other.IsProper) :
    ∃ others, checkFolder parse other settings root = .ok others ∧
      others.diagnostics = findings.diagnostics := by
  have discoveredToo := find_of_lacks proper discovered lacks properToo
  have same := read_of_lacks proper discovered lacks
  have listedToo : ∀ file ∈ found.filter (isReadable files root), IsListed other root file := by
    intro file member
    have listed := (isListed_of_found proper discovered file (List.mem_filter.mp member).1).2.2
    exact { named := listed.named, read := same file member ▸ listed.read }
  have all : (found.filter (isReadable files root)).filter (isReadable other root) =
      found.filter (isReadable files root) := by
    apply List.filter_eq_self.mpr
    intro file member
    rw [isReadable, same file member]
    exact (List.mem_filter.mp member).2
  refine ⟨_, checkFolder_eq discoveredToo listedToo, ?_⟩
  rw [concatenates.diagnostics, findingsOf, all]

end Lacking

section Immaterial

variable {ways : List String → Prop} {other : FileTree} (differ : files.DifferIn ways other)
  (proper : files.IsProper)
  (immaterial : ∀ way name, ways way → way.getLast? = some name → Discovery.matters name = false)

include differ proper immaterial

/-- What is found is no file at which a search does not look. -/
theorem read_of_differ {settings : Settings} {found : List FoundFile}
    (discovered : Discovery.find files root (selectionOf settings) settings.nestedIgnoring =
      .ok found) :
    ∀ file ∈ found,
      other.read (root.below file.names) = files.read (root.below file.names) := by
  intro file member
  rcases isListed_of_found proper discovered file member with ⟨listed, isScript, _⟩
  apply Discovery.read_of_matters differ proper immaterial listed
  rw [Discovery.isScript] at isScript
  rw [Discovery.matters, isScript, Bool.or_true]

/-- Files at which a search does not look change nothing. -/
theorem checkFolder_eq_of_differ (properToo : other.IsProper) (settings : Settings)
    (single : settings.nestedIgnoring = false →
      files.SameFile other (root.below [IgnoreFile.fileName])) :
    checkFolder parse other settings root = checkFolder parse files settings root := by
  have same : Discovery.find other root (selectionOf settings) settings.nestedIgnoring =
      Discovery.find files root (selectionOf settings) settings.nestedIgnoring :=
    Discovery.find_eq differ proper properToo immaterial single
  rw [checkFolder_eq_map, checkFolder_eq_map, same]
  cases discovered : Discovery.find files root (selectionOf settings) settings.nestedIgnoring with
  | error fault => rfl
  | ok found =>
      have reads := read_of_differ differ proper immaterial discovered
      exact congrArg Except.ok (checkAll_congr reads)

end Immaterial

/-- If a search succeeds, then checking the folder does, and it finds what checking the
readable scripts one after the other finds.  A tree without the scripts that cannot be read
has the same diagnostics. -/
theorem checkFolder_concatenates (parse : List UInt8 → Script) (files : FileTree)
    (settings : Settings) (root : Location) (found : List FoundFile) (proper : files.IsProper)
    (discovered : Discovery.find files root (selectionOf settings) settings.nestedIgnoring =
      .ok found) :
    ∃ findings, checkFolder parse files settings root = .ok findings ∧
      Concatenates parse files settings root found findings ∧
      ∀ other : FileTree, other.IsProper →
        files.Lacks ((unreadable files root found).map fun file => root.below file.names) other →
        ∃ others, checkFolder parse other settings root = .ok others ∧
          others.diagnostics = findings.diagnostics := by
  rcases @exists_concatenates parse _ _ _ _ proper discovered with
    ⟨findings, checked, concatenates⟩
  refine ⟨findings, checked, concatenates, ?_⟩
  intro other properToo lacks
  exact diagnostics_of_lacks proper discovered lacks concatenates properToo

/-- A script with a call that violates the rule. -/
def callingScript : FileTree :=
  .node { name := "a.js", content := .file "function f(){callback();x()}".toUTF8.toList } []

/-- The script, as it is listed in the top folder. -/
def callingFile : FoundFile :=
  { names := ["a.js"], bytes := "function f(){callback();x()}".toUTF8.toList }

/-- A folder in which one of two scripts cannot be read. -/
def halfReadable : FileTree :=
  .node { name := "" }
    ([callingScript] ++ .node { name := "b.js", content := .file [] false } [] :: [])

theorem find_halfReadable :
    Discovery.find halfReadable {} (selectionOf {}) false =
      .ok [callingFile, { names := ["b.js"], bytes := [] }] := by
  have listed : Discovery.filesBelow halfReadable {} =
      [callingFile, { names := ["b.js"], bytes := [] }] :=
    Discovery.filesBelow_of_ordered (by decide +kernel)
  apply @Discovery.find_of_ordered _ _ (selectionOf {}) false _
    [callingFile, { names := ["b.js"], bytes := [] }] [] listed
  · decide +kernel
  · decide +kernel
  · decide +kernel

/-- The diagnostics of a folder stay when its unreadable script is taken out. -/
theorem checkFolder_concatenates_halfReadable :
    halfReadable.IsProper ∧
      Discovery.find halfReadable {} (selectionOf {}) false =
        .ok [callingFile, { names := ["b.js"], bytes := [] }] ∧
      ∃ findings others, checkFolder Script.parse halfReadable {} {} = .ok findings ∧
        Concatenates Script.parse halfReadable {} {}
          [callingFile, { names := ["b.js"], bytes := [] }] findings ∧
        checkFolder Script.parse (.node { name := "" } [callingScript]) {} {} = .ok others ∧
        others.diagnostics = findings.diagnostics := by
  have proper : halfReadable.IsProper := by decide
  have gone : unreadable halfReadable {} [callingFile, { names := ["b.js"], bytes := [] }] =
      [{ names := ["b.js"], bytes := [] }] := by decide +kernel
  have lacks : halfReadable.Lacks [{ names := ["b.js"] }] (.node { name := "" } [callingScript]) :=
    lacks_child proper rfl
  rcases checkFolder_concatenates Script.parse halfReadable {} {} _ proper find_halfReadable with
    ⟨findings, checked, concatenates, same⟩
  rcases same (.node { name := "" } [callingScript]) (by decide)
    (by rw [gone]; exact lacks) with ⟨others, checkedToo, equal⟩
  exact ⟨proper, find_halfReadable, findings, others, checked, concatenates, checkedToo, equal⟩

end Checking

end CallbackLint
