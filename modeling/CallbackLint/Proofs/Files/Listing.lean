import CallbackLint.Files.Listing
import CallbackLint.Proofs.Rose.Context
import Mathlib.Data.List.Flatten
import Mathlib.Data.List.Nodup
import Mathlib.Data.List.Perm.Basic

namespace CallbackLint

open Rose

/-!
# What a listing holds

A listing puts the files of a folder before its folders and sorts both by name, one
folder after the other.  Whatever the order, it holds the regular files that are
reached through real folders, none of which is skipped.  Names in a folder differ,
so that no file is listed twice, and names hold no slash, so that different files
have different texts.
-/

namespace FileTree

/-- Names lead from a folder to a regular file through real folders, none of which is skipped.  A
link leads nowhere here, whatever it stands for. -/
inductive Leads : FileTree → List String → List UInt8 → Prop
  | file {folder child : FileTree} {bytes : List UInt8} {readable : Bool}
      (inside : folder.content = .folder) (member : child ∈ folder.children)
      (here : child.content = .file bytes readable) :
      Leads folder [child.value.name] bytes
  | folder {folder child : FileTree} {names : List String} {bytes : List UInt8}
      (inside : folder.content = .folder) (member : child ∈ folder.children)
      (entered : child.value.name ∉ skippedFolders) (below : Leads child names bytes) :
      Leads folder (child.value.name :: names) bytes

theorem Leads.content_eq {tree : FileTree} {names : List String} {bytes : List UInt8}
    (leads : tree.Leads names bytes) : tree.content = .folder := by
  cases leads with
  | file inside => exact inside
  | folder inside => exact inside

/-! ## Membership -/

theorem shareAll_eq (children : List FileTree) : shareAll children = children.map share := by
  induction children with
  | nil => rfl
  | cons child rest inductionHypothesis => rw [shareAll, inductionHypothesis, List.map_cons]

theorem gather_perm (shares : List Share) :
    (gather shares).Perm (shares.flatMap Share.files) :=
  (List.mergeSort_perm shares _).flatMap fun _ _ => List.Perm.refl _

/-- Parts that are in order stay as they are. -/
theorem gather_of_ordered {shares : List Share}
    (ordered : shares.Pairwise fun first second => first.precedes second = true) :
    gather shares = shares.flatMap Share.files := by
  rw [gather, List.mergeSort_of_pairwise ordered]

/-- The files of a folder are those that its parts add. -/
theorem files_perm {folder : FileTree} (inside : folder.content = .folder) :
    folder.files.Perm (folder.children.flatMap fun child => (share child).files) := by
  have parts := gather_perm (folder.children.map share)
  rw [List.flatMap_map] at parts
  rw [files, if_pos inside, shareAll_eq]
  exact parts

theorem mem_share_iff {child : FileTree} {file : FoundFile} :
    file ∈ (share child).files ↔
      (∃ bytes readable, child.content = .file bytes readable ∧
        file = { names := [child.value.name], bytes }) ∨
      (child.content = .folder ∧ child.value.name ∉ skippedFolders ∧
        ∃ inner ∈ child.files, file = inner.within child.value.name) := by
  rcases child with ⟨⟨name, content⟩, children⟩
  cases content with
  | file bytes readable =>
      simp [share, content]
  | link target =>
      simp [share, content]
  | folder =>
      by_cases skipped : name ∈ skippedFolders
      · simp [share, content, skipped]
      · simp [share, content, skipped, files, eq_comm]

/-- A listing holds a file exactly if its names lead there. -/
theorem mem_files_iff {tree : FileTree} {file : FoundFile} :
    file ∈ tree.files ↔ tree.Leads file.names file.bytes := by
  induction tree using Rose.induct generalizing file with
  | node entry children inductionHypothesis =>
      constructor
      · intro listed
        have inside : FileTree.content (.node entry children) = .folder := by
          by_contra other
          rw [files, if_neg other] at listed
          cases listed
        rcases List.mem_flatMap.mp ((files_perm inside).subset listed) with ⟨child, member, added⟩
        rcases mem_share_iff.mp added with
          ⟨bytes, readable, here, same⟩ | ⟨folder, entered, inner, below, same⟩
        · rw [same]
          exact .file inside member here
        · rw [same]
          exact .folder inside member entered ((inductionHypothesis child member).mp below)
      · rcases file with ⟨names, bytes⟩
        intro leads
        cases leads with
        | file inside member here =>
            apply (files_perm inside).mem_iff.mpr
            apply List.mem_flatMap.mpr
            exact ⟨_, member, mem_share_iff.mpr (Or.inl ⟨_, _, here, rfl⟩)⟩
        | folder inside member entered below =>
            rename_i child names
            have inner : { names, bytes } ∈ child.files :=
              (inductionHypothesis child member).mpr below
            apply (files_perm inside).mem_iff.mpr
            apply List.mem_flatMap.mpr
            exact ⟨_, member,
              mem_share_iff.mpr (Or.inr ⟨below.content_eq, entered, _, inner, rfl⟩)⟩

/-! ## Repetition -/

/-- Names in a folder differ, and none holds a slash. -/
structure WellNamed (below : List Entry) : Prop where
  distinct : (below.map Entry.name).Nodup
  noSlash : ∀ entry ∈ below, '/' ∉ entry.name.toList

instance (below : List Entry) : Decidable (WellNamed below) :=
  decidable_of_iff ((below.map Entry.name).Nodup ∧ ∀ entry ∈ below, '/' ∉ entry.name.toList)
    ⟨fun both => ⟨both.1, both.2⟩, fun named => ⟨named.distinct, named.noSlash⟩⟩

/-- The names in all folders of a tree are as they should be. -/
def IsWellNamed (tree : FileTree) : Prop := tree.Everywhere (fun _ _ => WellNamed) none

instance (tree : FileTree) : Decidable tree.IsWellNamed :=
  inferInstanceAs (Decidable (tree.Everywhere (fun _ _ => WellNamed) none))

theorem isWellNamed_node_iff {entry : Entry} {children : List FileTree} :
    IsWellNamed (.node entry children) ↔
      WellNamed (children.map Rose.value) ∧ ∀ child ∈ children, child.IsWellNamed :=
  everywhere_node_iff

/-- What holds everywhere in a tree holds everywhere in its parts. -/
theorem everywhere_at? {property : Entry → List Entry → Prop} {tree part : FileTree}
    {names : List String} (everywhere : tree.Everywhere (fun _ => property) none)
    (found : tree.at? names = some part) : part.Everywhere (fun _ => property) none := by
  induction names generalizing tree with
  | nil =>
      rw [FileTree.at?, Option.some.injEq] at found
      exact found ▸ everywhere
  | cons name rest inductionHypothesis =>
      rw [FileTree.at?] at found
      cases here : child? tree name with
      | none =>
          rw [here] at found
          cases found
      | some child =>
          rw [here] at found
          rcases tree with ⟨entry, children⟩
          rw [everywhere_node_iff] at everywhere
          exact inductionHypothesis (everywhere.2 child (List.mem_of_find?_eq_some here)) found

/-- What is reached in a tree is well named if the tree is. -/
theorem IsWellNamed.at? {tree part : FileTree} {names : List String} (named : tree.IsWellNamed)
    (found : tree.at? names = some part) : part.IsWellNamed :=
  everywhere_at? named found

theorem IsWellNamed.reach {files tree : FileTree} {root : Location} (named : files.IsWellNamed)
    (reached : files.reach root = .ok tree) : tree.IsWellNamed := by
  rw [FileTree.reach] at reached
  split at reached
  · cases reached
  · split at reached
    · rename_i found
      cases reached
      exact named.at? found
    · cases reached

/-- The names of a file in a part of a folder begin with the name of the part. -/
theorem head?_of_mem_share {child : FileTree} {file : FoundFile}
    (added : file ∈ (share child).files) : file.names.head? = some child.value.name := by
  rcases mem_share_iff.mp added with ⟨_, _, _, same⟩ | ⟨_, _, inner, _, same⟩
  · rw [same]
    rfl
  · rw [same]
    rfl

/-- What a part of a folder adds, by what it is. -/
theorem files_share (child : FileTree) :
    (share child).files =
      match child.content with
      | .file bytes _ => [{ names := [child.value.name], bytes }]
      | .link _ => []
      | .folder =>
        if skippedFolders.contains child.value.name then []
        else child.files.map (FoundFile.within child.value.name) := by
  rcases child with ⟨⟨name, content⟩, children⟩
  cases content <;> rfl

theorem nodup_share {child : FileTree} (distinct : (child.files.map FoundFile.names).Nodup) :
    ((share child).files.map FoundFile.names).Nodup := by
  rw [files_share]
  cases child.content with
  | file => exact List.nodup_singleton _
  | link => exact List.nodup_nil
  | folder =>
      dsimp only
      split
      · exact List.nodup_nil
      · have longer : FoundFile.names ∘ FoundFile.within child.value.name =
            List.cons child.value.name ∘ FoundFile.names := rfl
        rw [List.map_map, longer, ← List.map_map]
        exact distinct.map List.cons_injective

/-- No names are listed twice. -/
theorem nodup_files {tree : FileTree} (named : tree.IsWellNamed) :
    (tree.files.map FoundFile.names).Nodup := by
  induction tree using Rose.induct with
  | node entry children inductionHypothesis =>
      rw [isWellNamed_node_iff] at named
      by_cases inside : FileTree.content (.node entry children) = .folder
      · apply ((files_perm inside).map FoundFile.names).nodup_iff.mpr
        rw [List.map_flatMap, List.nodup_flatMap]
        constructor
        · intro child member
          exact nodup_share (inductionHypothesis child member (named.2 child member))
        · -- What different parts add begins with different names.
          have distinct := named.1.distinct
          rw [List.map_map] at distinct
          apply (List.pairwise_map.mp distinct).imp
          intro first second different names inFirst inSecond
          rcases List.mem_map.mp inFirst with ⟨file, added, same⟩
          rcases List.mem_map.mp inSecond with ⟨other, addedToo, sameToo⟩
          have headFirst := head?_of_mem_share added
          have headSecond := head?_of_mem_share addedToo
          rw [same] at headFirst
          rw [sameToo, headFirst] at headSecond
          exact different (Option.some.inj headSecond)
      · rw [files, if_neg inside]
        exact List.nodup_nil

/-! ## Texts -/

theorem Leads.names_ne_nil {tree : FileTree} {names : List String} {bytes : List UInt8}
    (leads : tree.Leads names bytes) : names ≠ [] := by
  cases leads with
  | file => exact List.cons_ne_nil _ _
  | folder => exact List.cons_ne_nil _ _

theorem Leads.noSlash {tree : FileTree} {names : List String} {bytes : List UInt8}
    (leads : tree.Leads names bytes) (named : tree.IsWellNamed) :
    ∀ name ∈ names, '/' ∉ name.toList := by
  induction leads with
  | @file folder child bytes readable inside member here =>
      rcases folder with ⟨entry, children⟩
      rw [isWellNamed_node_iff] at named
      intro name listed
      rw [List.mem_singleton.mp listed]
      exact named.1.noSlash _ (List.mem_map_of_mem member)
  | @folder folder child names bytes inside member entered below inductionHypothesis =>
      rcases folder with ⟨entry, children⟩
      rw [isWellNamed_node_iff] at named
      intro name listed
      rcases List.mem_cons.mp listed with same | later
      · rw [same]
        exact named.1.noSlash _ (List.mem_map_of_mem member)
      · exact inductionHypothesis (named.2 child member) name later

end FileTree

namespace Location

theorem piecesBetween_of_notMem {separator : Char} {piece : List Char}
    (apart : separator ∉ piece) : piecesBetween separator piece = [piece] := by
  induction piece with
  | nil => rfl
  | cons char rest inductionHypothesis =>
      have different : char ≠ separator := fun same => apart (same ▸ List.mem_cons_self)
      have later : separator ∉ rest := fun member => apart (List.mem_cons_of_mem _ member)
      rw [piecesBetween, if_neg different, inductionHypothesis later]

/-- A text is cut after its first piece. -/
theorem piecesBetween_append_cons {separator : Char} {piece : List Char}
    (apart : separator ∉ piece) (text : List Char) :
    piecesBetween separator (piece ++ separator :: text) = piece :: piecesBetween separator text := by
  rw [piecesBetween_append_separator, piecesBetween_of_notMem apart, List.singleton_append]

/-- Pieces without the separator are found again in the text that they make. -/
theorem piecesBetween_intercalate {separator : Char} {first : List Char}
    {rest : List (List Char)} (apart : ∀ piece ∈ first :: rest, separator ∉ piece) :
    piecesBetween separator ([separator].intercalate (first :: rest)) = first :: rest := by
  induction rest generalizing first with
  | nil =>
      rw [List.intercalate_singleton]
      exact piecesBetween_of_notMem (apart first List.mem_cons_self)
  | cons second rest inductionHypothesis =>
      rw [List.intercalate_cons_cons, List.append_assoc, List.singleton_append,
        piecesBetween_append_cons (apart first List.mem_cons_self),
        inductionHypothesis fun piece member => apart piece (List.mem_cons_of_mem _ member)]

theorem piecesBetween_join {names : List String} (nonempty : names ≠ [])
    (apart : ∀ name ∈ names, '/' ∉ name.toList) :
    piecesBetween '/' (join names).toList = names.map String.toList := by
  cases names with
  | nil => exact False.elim (nonempty rfl)
  | cons first rest =>
      rw [join, String.toList_intercalate]
      apply piecesBetween_intercalate
      intro piece member
      rw [← List.map_cons] at member
      rcases List.mem_map.mp member with ⟨name, listed, same⟩
      rw [← same]
      exact apart name listed

/-- Different names without slashes make different texts. -/
theorem join_injective {names others : List String} (nonempty : names ≠ [])
    (othersNonempty : others ≠ []) (apart : ∀ name ∈ names, '/' ∉ name.toList)
    (othersApart : ∀ name ∈ others, '/' ∉ name.toList) (same : join names = join others) :
    names = others := by
  have pieces := piecesBetween_join nonempty apart
  rw [same, piecesBetween_join othersNonempty othersApart] at pieces
  have injective : Function.Injective String.toList := fun _ _ => String.toList_injective
  exact (List.map_injective_iff.mpr injective pieces).symm

end Location

namespace FileTree

/-- No text is listed twice. -/
theorem nodup_texts {tree : FileTree} (named : tree.IsWellNamed) :
    (tree.files.map FoundFile.text).Nodup := by
  have texts : tree.files.map FoundFile.text =
      (tree.files.map FoundFile.names).map Location.join := by
    rw [List.map_map]
    rfl
  have fromListing : ∀ names ∈ tree.files.map FoundFile.names,
      names ≠ [] ∧ ∀ name ∈ names, '/' ∉ name.toList := by
    intro names listed
    rcases List.mem_map.mp listed with ⟨file, member, same⟩
    have leads := mem_files_iff.mp member
    rw [same] at leads
    exact ⟨leads.names_ne_nil, leads.noSlash named⟩
  rw [texts]
  apply (nodup_files named).map_on
  intro names listed others othersListed same
  have first := fromListing names listed
  have second := fromListing others othersListed
  exact Location.join_injective first.1 second.1 first.2 second.2 same

end FileTree

end CallbackLint
