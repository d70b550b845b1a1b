import CallbackLint.Proofs.Files.Listing

namespace CallbackLint

open Rose

namespace FileTree

/-!
# The order of a listing

Of two files that are listed below a folder, the order of their names decides which
comes first: what is right in a folder is listed before what is further down, and
otherwise the first name in which they differ decides.  So a listing is determined by
the files in it.
-/

/-- The order in which files are listed, by the names that lead to them. -/
inductive ListedBefore : List String → List String → Prop
  /-- Two files in one folder. -/
  | files {first second : String} (less : first < second) : ListedBefore [first] [second]
  /-- A file right in a folder, and one further down. -/
  | deeper (first second : String) {rest : List String} (down : rest ≠ []) :
      ListedBefore [first] (second :: rest)
  /-- Files in two parts of a folder. -/
  | folders {first second : String} {more rest : List String} (less : first < second)
      (down : more ≠ []) (downToo : rest ≠ []) : ListedBefore (first :: more) (second :: rest)
  /-- Files in the same part of a folder. -/
  | inside (name : String) {more rest : List String} (below : ListedBefore more rest) :
      ListedBefore (name :: more) (name :: rest)

namespace ListedBefore

theorem ne_nil {names others : List String} (before : ListedBefore names others) :
    names ≠ [] ∧ others ≠ [] := by
  cases before <;> exact ⟨List.cons_ne_nil _ _, List.cons_ne_nil _ _⟩

/-- Of two files one is not listed both before and after the other. -/
theorem asymm {names others : List String} (before : ListedBefore names others) :
    ¬ ListedBefore others names := by
  induction before with
  | files less =>
      intro after
      cases after with
      | files more => exact String.lt_asymm less more
      | deeper _ _ down => exact down rfl
      | folders more down => exact down rfl
      | inside name below => exact below.ne_nil.1 rfl
  | deeper first second down =>
      intro after
      cases after with
      | files more => exact down rfl
      | deeper _ _ downToo => exact downToo rfl
      | folders more _ downToo => exact downToo rfl
      | inside name below => exact below.ne_nil.2 rfl
  | folders less down downToo =>
      intro after
      cases after with
      | files more => exact down rfl
      | deeper => exact downToo rfl
      | folders more => exact String.lt_asymm less more
      | inside name below => exact String.lt_irrefl _ less
  | inside name below inductionHypothesis =>
      intro after
      cases after with
      | files more => exact below.ne_nil.1 rfl
      | deeper => exact below.ne_nil.2 rfl
      | folders more => exact String.lt_irrefl _ more
      | inside _ belowToo => exact inductionHypothesis belowToo

end ListedBefore

/-! ## Shares -/

theorem Share.precedes_trans (first second third : Share)
    (one : first.precedes second = true) (two : second.precedes third = true) :
    first.precedes third = true := by
  rcases first with ⟨firstName, firstIsFolder, _⟩
  rcases second with ⟨secondName, secondIsFolder, _⟩
  rcases third with ⟨thirdName, thirdIsFolder, _⟩
  have trans : firstName ≤ secondName → secondName ≤ thirdName → firstName ≤ thirdName :=
    String.le_trans
  cases firstIsFolder <;> cases secondIsFolder <;> cases thirdIsFolder <;> simp_all [precedes]

theorem Share.precedes_total (first second : Share) :
    (first.precedes second || second.precedes first) = true := by
  rcases first with ⟨firstName, firstIsFolder, _⟩
  rcases second with ⟨secondName, secondIsFolder, _⟩
  have total := String.le_total firstName secondName
  cases firstIsFolder <;> cases secondIsFolder <;> simp_all [precedes]

/-- What precedes with another name is a file before a folder, or both are of one sort and
its name is less. -/
theorem Share.lt_of_precedes {first second : Share} (precedes : first.precedes second = true)
    (different : first.name ≠ second.name) :
    first.isFolder = false ∧ second.isFolder = true ∨
      first.isFolder = second.isFolder ∧ first.name < second.name := by
  rw [Share.precedes] at precedes
  by_cases same : first.isFolder = second.isFolder
  · rw [if_pos same, decide_eq_true_eq] at precedes
    right
    refine ⟨same, String.not_le.mp ?_⟩
    intro back
    exact different (String.le_antisymm precedes back)
  · rw [if_neg same] at precedes
    left
    rw [precedes] at same
    exact ⟨Bool.eq_false_iff.mpr same, precedes⟩

theorem name_share (child : FileTree) : (share child).name = child.value.name := by
  rcases child with ⟨entry, children⟩
  rfl

theorem isFolder_share (child : FileTree) :
    (share child).isFolder = decide (child.content = .folder) := by
  rcases child with ⟨entry, children⟩
  rfl

/-- The files in a part of a folder are listed before those in a later part. -/
theorem listedBefore_of_precedes {first second : FileTree}
    (precedes : (share first).precedes (share second) = true)
    (different : first.value.name ≠ second.value.name) {file other : FoundFile}
    (member : file ∈ (share first).files) (memberToo : other ∈ (share second).files) :
    ListedBefore file.names other.names := by
  have less := Share.lt_of_precedes precedes (by rwa [name_share, name_share])
  rw [name_share, name_share, isFolder_share, isFolder_share] at less
  rcases mem_share_iff.mp member with ⟨_, _, isFile, same⟩ | ⟨isFolder, _, inner, below, same⟩
  · rw [isFile] at less
    rcases mem_share_iff.mp memberToo with
      ⟨_, _, isFileToo, sameToo⟩ | ⟨isFolderToo, _, innerToo, belowToo, sameToo⟩
    · rw [isFileToo] at less
      rw [same, sameToo]
      exact .files (by simpa using less)
    · rw [same, sameToo]
      exact .deeper _ _ (mem_files_iff.mp belowToo).names_ne_nil
  · rw [isFolder] at less
    rcases mem_share_iff.mp memberToo with
      ⟨_, _, isFileToo, sameToo⟩ | ⟨isFolderToo, _, innerToo, belowToo, sameToo⟩
    · rw [isFileToo] at less
      simp at less
    · rw [isFolderToo] at less
      rw [same, sameToo]
      exact .folders (by simpa using less) (mem_files_iff.mp below).names_ne_nil
        (mem_files_iff.mp belowToo).names_ne_nil

theorem pairwise_share {child : FileTree}
    (ordered : child.files.Pairwise fun first second => ListedBefore first.names second.names) :
    (share child).files.Pairwise fun first second => ListedBefore first.names second.names := by
  rw [files_share]
  cases child.content with
  | file => exact List.pairwise_singleton _ _
  | link => exact List.Pairwise.nil
  | folder =>
      dsimp only
      split
      · exact List.Pairwise.nil
      · rw [List.pairwise_map]
        exact ordered.imp fun before => .inside _ before

/-- A listing is in order. -/
theorem pairwise_files {tree : FileTree} (named : tree.IsWellNamed) :
    tree.files.Pairwise fun first second => ListedBefore first.names second.names := by
  induction tree using Rose.induct with
  | node entry children inductionHypothesis =>
      rw [isWellNamed_node_iff] at named
      by_cases inside : FileTree.content (.node entry children) = .folder
      · have parts {part : Share}
            (member : part ∈ (children.map share).mergeSort Share.precedes) :
            ∃ child ∈ children, share child = part :=
          List.mem_map.mp (List.mem_mergeSort.mp member)
        have names : (children.map share).map Share.name =
            (children.map Rose.value).map Entry.name := by
          rw [List.map_map, List.map_map]
          exact List.map_congr_left fun child _ => name_share child
        have distinct := (List.mergeSort_perm (children.map share) Share.precedes).map Share.name
        rw [names] at distinct
        have different := List.pairwise_map.mp (distinct.nodup_iff.mpr named.1.distinct)
        have ordered := List.pairwise_mergeSort Share.precedes_trans Share.precedes_total
          (children.map share)
        rw [files, if_pos inside, gather, shareAll_eq, children_node, List.pairwise_flatMap]
        constructor
        · intro part member
          rcases parts member with ⟨child, listed, same⟩
          rw [← same]
          exact pairwise_share (inductionHypothesis child listed (named.2 child listed))
        · apply (ordered.and different).imp_of_mem
          rintro part other member memberToo ⟨precedes, apart⟩ file here fileToo there
          rcases parts member with ⟨child, _, same⟩
          rcases parts memberToo with ⟨childToo, _, sameToo⟩
          rw [← same] at precedes apart here
          rw [← sameToo] at precedes apart there
          rw [name_share, name_share] at apart
          exact listedBefore_of_precedes precedes apart here there
      · rw [files, if_neg inside]
        exact List.Pairwise.nil

/-- Listings of the same files are the same. -/
theorem eq_of_mem_iff {first second : List FoundFile}
    (ordered : first.Pairwise fun file other => ListedBefore file.names other.names)
    (orderedToo : second.Pairwise fun file other => ListedBefore file.names other.names)
    (same : ∀ file, file ∈ first ↔ file ∈ second) : first = second := by
  have nodup {files : List FoundFile}
      (ordered : files.Pairwise fun file other => ListedBefore file.names other.names) :
      files.Nodup := by
    apply ordered.imp
    intro file other before equal
    rw [equal] at before
    exact before.asymm before
  apply List.Perm.eq_of_pairwise _ ordered orderedToo
    ((List.perm_ext_iff_of_nodup (nodup ordered) (nodup orderedToo)).mpr same)
  intro file other _ _ before after
  exact False.elim (before.asymm after)

end FileTree

end CallbackLint
