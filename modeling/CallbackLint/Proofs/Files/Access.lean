import CallbackLint.Proofs.Files.Listing
import Mathlib.Tactic.SplitIfs

namespace CallbackLint

open Rose

/-!
# Reaching what is listed

Looking a location up asks a tree only what stands at the end of some names.  Each
name leads onward, into a link or nowhere; whoever arrives in a folder goes on from
there, wherever the links on the way have led from.

A listing follows no links.  So what is listed below a folder is reached by the names
of the listing from wherever the folder is reached, and its bytes are those that the
listing says.
-/

namespace FileTree

/-- What stands at the end of some names. -/
def look (files : FileTree) (names : List String) : Option Content :=
  (files.at? names).map content

/-- The way without links to what stands at a location. -/
def wayTo (files : FileTree) (location : Location) : Except AccessFault (List String) :=
  follow files true linkLimit [] location.names

/-! ## One name -/

/-- Where one name leads from a folder. -/
inductive Stride where
  | onward (folder : List String)
  | diverted (target : String)
  | stuck (fault : AccessFault)

def stride (files : FileTree) (strict : Bool) (folder : List String) (name : String) : Stride :=
  if strict && (files.look folder).isNone then .stuck .missing
  else if strict && files.look folder != some .folder then .stuck .notAFolder
  else if name = "" || name = "." then .onward folder
  else if name = ".." then .onward folder.dropLast
  else
    match files.look (folder ++ [name]) with
    | some (.link target) => .diverted target
    | some _ => .onward (folder ++ [name])
    | none => if strict then .stuck .missing else .onward (folder ++ [name])

variable {files : FileTree} {strict : Bool} {folder : List String} {name : String}

/-- Names are gone along one after the other. -/
theorem advance_cons (rest : List String) :
    advance files strict folder (name :: rest) =
      match stride files strict folder name with
      | .onward next => advance files strict next rest
      | .diverted target => .diverted folder target rest
      | .stuck fault => .stuck fault := by
  have looked (names : List String) : (files.at? names).map content = files.look names := rfl
  rw [advance, stride]
  simp only [looked]
  by_cases absent : (strict && (files.look folder).isNone) = true
  · rw [if_pos absent, if_pos absent]
  · rw [if_neg absent, if_neg absent]
    by_cases closed : (strict && files.look folder != some .folder) = true
    · rw [if_pos closed, if_pos closed]
    · rw [if_neg closed, if_neg closed]
      by_cases here : (decide (name = "") || decide (name = ".")) = true
      · rw [if_pos here, if_pos here]
      · rw [if_neg here, if_neg here]
        by_cases back : name = ".."
        · rw [if_pos back, if_pos back]
        · rw [if_neg back, if_neg back]
          cases files.look (folder ++ [name]) with
          | none => cases strict <;> rfl
          | some there => cases there <;> rfl

/-- Several names lead on from where the first ones arrive. -/
theorem advance_append (first more : List String) :
    advance files strict folder (first ++ more) =
      match advance files strict folder first with
      | .arrived middle => advance files strict middle more
      | .diverted inside target ahead => .diverted inside target (ahead ++ more)
      | .stuck fault => .stuck fault := by
  induction first generalizing folder with
  | nil => rfl
  | cons name rest inductionHypothesis =>
      rw [List.cons_append, advance_cons, advance_cons]
      cases stride files strict folder name with
      | onward next => exact inductionHypothesis
      | diverted target => rfl
      | stuck fault => rfl

/-- From where some names arrive after all links, more names go on. -/
theorem follow_append {links : Nat} {first middle more final : List String}
    (led : follow files strict links folder first = .ok middle)
    (onward : advance files strict middle more = .arrived final) :
    follow files strict links folder (first ++ more) = .ok final := by
  fun_induction follow files strict links folder first with
  | case1 links folder first names arrival =>
      cases led
      rw [follow, advance_append, arrival]
      simp only [onward]
  | case2 links folder first fault arrival => cases led
  | case3 folder first inside target ahead arrival => cases led
  | case4 folder first inside target ahead arrival links from? inductionHypothesis =>
      have later := inductionHypothesis led
      rw [List.append_assoc] at later
      rw [follow, advance_append, arrival]
      exact later

/-- Whoever gets along all of some names gets along the first of them, with some links left. -/
theorem exists_follow_of_append {links : Nat} {first more final : List String}
    (led : follow files strict links folder (first ++ more) = .ok final) :
    ∃ left middle, follow files strict links folder first = .ok middle ∧
      follow files strict left middle more = .ok final := by
  fun_induction follow files strict links folder first with
  | case1 links folder first names arrival =>
      rw [follow, advance_append, arrival] at led
      refine ⟨links, names, rfl, ?_⟩
      rw [follow]
      exact led
  | case2 links folder first fault arrival =>
      rw [follow, advance_append, arrival] at led
      cases led
  | case3 folder first inside target ahead arrival =>
      rw [follow, advance_append, arrival] at led
      cases led
  | case4 folder first inside target ahead arrival links from? inductionHypothesis =>
      apply inductionHypothesis
      rw [follow, advance_append, arrival] at led
      rw [List.append_assoc]
      exact led

/-! ## Proper trees -/

/-- The names that mean no part of a folder. -/
def specialNames : List String := ["", ".", ".."]

/-- Names in a folder are as they should be and mean parts of it, and only folders have
parts. -/
structure ProperFolder (entry : Entry) (below : List Entry) : Prop extends WellNamed below where
  real : ∀ part ∈ below, part.name ∉ specialNames
  folder : below ≠ [] → entry.content = .folder

instance (entry : Entry) (below : List Entry) : Decidable (ProperFolder entry below) :=
  decidable_of_iff (WellNamed below ∧ (∀ part ∈ below, part.name ∉ specialNames) ∧
      (below ≠ [] → entry.content = .folder))
    ⟨fun all => { all.1 with real := all.2.1, folder := all.2.2 },
      fun proper => ⟨proper.toWellNamed, proper.real, proper.folder⟩⟩

/-- A tree is one that a file system can hold. -/
def IsProper (tree : FileTree) : Prop := tree.Everywhere (fun _ => ProperFolder) none

instance (tree : FileTree) : Decidable tree.IsProper :=
  inferInstanceAs (Decidable (tree.Everywhere (fun _ => ProperFolder) none))

theorem isProper_node_iff {entry : Entry} {children : List FileTree} :
    IsProper (.node entry children) ↔
      ProperFolder entry (children.map Rose.value) ∧ ∀ child ∈ children, child.IsProper :=
  everywhere_node_iff

theorem IsProper.isWellNamed {tree : FileTree} (proper : tree.IsProper) : tree.IsWellNamed :=
  proper.imp fun _ _ _ _ properFolder => properFolder.toWellNamed

theorem IsProper.at? {tree part : FileTree} {names : List String} (proper : tree.IsProper)
    (found : tree.at? names = some part) : part.IsProper :=
  everywhere_at? proper found

/-! ## Looking into a tree -/

theorem at?_append (tree : FileTree) (first second : List String) :
    tree.at? (first ++ second) = (tree.at? first).bind fun part => part.at? second := by
  induction first generalizing tree with
  | nil => rfl
  | cons name rest inductionHypothesis =>
      rw [List.cons_append, FileTree.at?, FileTree.at?]
      cases child? tree name with
      | none => rfl
      | some child => exact inductionHypothesis child

theorem look_of_at? {part : FileTree} {way : List String} (there : files.at? way = some part) :
    files.look way = some part.content := by
  rw [look, there]
  rfl

theorem look_append {part : FileTree} {way : List String} (there : files.at? way = some part)
    (names : List String) : files.look (way ++ names) = part.look names := by
  rw [look, at?_append, there]
  rfl

/-- Under the name of a part of a well named folder there is this part. -/
theorem child?_of_mem {tree child : FileTree}
    (distinct : ((tree.children.map Rose.value).map Entry.name).Nodup)
    (member : child ∈ tree.children) : child? tree child.value.name = some child := by
  rw [child?]
  generalize tree.children = children at distinct member
  induction children with
  | nil => cases member
  | cons first rest inductionHypothesis =>
      rw [List.map_cons, List.map_cons, List.nodup_cons] at distinct
      rcases List.mem_cons.mp member with same | later
      · rw [same, List.find?_cons_of_pos]
        exact beq_self_eq_true first.value.name
      · have different : ¬ (first.value.name == child.value.name) = true := by
          intro equal
          rw [beq_iff_eq] at equal
          exact distinct.1 (equal ▸ List.mem_map_of_mem (List.mem_map_of_mem later))
        refine (List.find?_cons_of_neg ?_).trans (inductionHypothesis distinct.2 later)
        exact different

theorem at?_child {tree child : FileTree} (named : tree.IsWellNamed)
    (member : child ∈ tree.children) (names : List String) :
    tree.at? (child.value.name :: names) = child.at? names := by
  have distinct : ((tree.children.map Rose.value).map Entry.name).Nodup := by
    rcases tree with ⟨entry, children⟩
    exact (isWellNamed_node_iff.mp named).1.distinct
  rw [FileTree.at?, child?_of_mem distinct member]

theorem look_child {tree child : FileTree} (named : tree.IsWellNamed)
    (member : child ∈ tree.children) (names : List String) :
    tree.look (child.value.name :: names) = child.look names := by
  rw [look, at?_child named member]
  rfl

/-- What is looked up under a name first is a part of the folder. -/
theorem exists_child_of_look {tree : FileTree} {rest : List String} {there : Content}
    (found : tree.look (name :: rest) = some there) :
    ∃ child : FileTree, child ∈ tree.children ∧ child.value.name = name ∧
      child.look rest = some there := by
  rw [look, FileTree.at?] at found
  cases here : child? tree name with
  | none =>
      rw [here] at found
      cases found
  | some child =>
      rw [here] at found
      have named := List.find?_some here
      exact ⟨child, List.mem_of_find?_eq_some here, beq_iff_eq.mp named, found⟩

/-- What is looked up stands somewhere in the tree. -/
theorem exists_entry_of_look {tree : FileTree} {way : List String} {there : Content}
    (found : tree.look way = some there) : ∃ entry ∈ tree.preorder, entry.content = there := by
  induction way generalizing tree with
  | nil => exact ⟨tree.value, tree.value_mem_preorder, Option.some.inj found⟩
  | cons name rest inductionHypothesis =>
      rcases exists_child_of_look found with ⟨child, member, _, below⟩
      rcases inductionHypothesis below with ⟨entry, inside, content⟩
      rcases tree with ⟨top, children⟩
      refine ⟨entry, List.mem_cons_of_mem _ ?_, content⟩
      exact (preorder_sublist_preorderAll member).subset inside

theorem IsProper.content_eq {tree child : FileTree} (proper : tree.IsProper)
    (member : child ∈ tree.children) : tree.content = .folder := by
  rcases tree with ⟨entry, children⟩
  apply (isProper_node_iff.mp proper).1.folder
  exact List.ne_nil_of_mem (List.mem_map_of_mem member)

theorem IsProper.name_notMem {tree child : FileTree} (proper : tree.IsProper)
    (member : child ∈ tree.children) : child.value.name ∉ specialNames := by
  rcases tree with ⟨entry, children⟩
  exact (isProper_node_iff.mp proper).1.real _ (List.mem_map_of_mem member)

theorem IsProper.child {tree child : FileTree} (proper : tree.IsProper)
    (member : child ∈ tree.children) : child.IsProper := by
  rcases tree with ⟨entry, children⟩
  exact (isProper_node_iff.mp proper).2 child member

/-- Names lead to a file exactly if they end at one and no folder on the way is
skipped. -/
theorem leads_iff {tree : FileTree} (proper : tree.IsProper) {names : List String}
    {bytes : List UInt8} :
    tree.Leads names bytes ↔
      names ≠ [] ∧ (∀ name ∈ names.dropLast, name ∉ skippedFolders) ∧
        ∃ readable, tree.look names = some (.file bytes readable) := by
  constructor
  · intro leads
    induction leads with
    | @file folder child bytes readable inside member here =>
        have found : folder.look [child.value.name] = some (.file bytes readable) := by
          rw [look_child proper.isWellNamed member, ← here]
          rfl
        exact ⟨List.cons_ne_nil _ _, List.forall_mem_nil _, readable, found⟩
    | @folder folder child names bytes inside member entered below inductionHypothesis =>
        rcases inductionHypothesis (proper.child member) with ⟨nonempty, notSkipped, found⟩
        refine ⟨List.cons_ne_nil _ _, ?_, ?_⟩
        · rw [List.dropLast_cons_of_ne_nil nonempty]
          exact List.forall_mem_cons.mpr ⟨entered, notSkipped⟩
        · rw [look_child proper.isWellNamed member]
          exact found
  · rintro ⟨nonempty, notSkipped, readable, found⟩
    induction names generalizing tree with
    | nil => exact False.elim (nonempty rfl)
    | cons name rest inductionHypothesis =>
        rcases exists_child_of_look found with ⟨child, member, same, below⟩
        rw [← same] at notSkipped ⊢
        cases rest with
        | nil => exact .file (proper.content_eq member) member (Option.some.inj below)
        | cons second more =>
            rw [List.dropLast_cons_of_ne_nil (List.cons_ne_nil _ _), List.forall_mem_cons]
              at notSkipped
            exact .folder (proper.content_eq member) member notSkipped.1
              (inductionHypothesis (proper.child member) (List.cons_ne_nil _ _) notSkipped.2 below)

/-! ## Going to what is listed -/

theorem notMem_specialNames_iff : name ∉ specialNames ↔ name ≠ "" ∧ name ≠ "." ∧ name ≠ ".." := by
  simp [specialNames]

/-- A name of a part of a folder leads onward to it, unless the part is a link. -/
theorem stride_of_real {there : Content} (inFolder : files.look folder = some .folder)
    (real : name ∉ specialNames) (found : files.look (folder ++ [name]) = some there)
    (noLink : ∀ target, there ≠ .link target) :
    stride files true folder name = .onward (folder ++ [name]) := by
  rw [notMem_specialNames_iff] at real
  rw [stride, inFolder, found]
  cases there with
  | folder => simp [real]
  | file bytes readable => simp [real]
  | link target => exact False.elim (noLink target rfl)

/-- From a folder one name leads to what stands under it, unless that is a link. -/
theorem exists_wayTo_of_below {root : Location} {final : List String}
    (led : files.wayTo (root.below [name]) = .ok final) (real : name ∉ specialNames)
    (noLink : ∀ way target, files.wayTo root = .ok way →
      files.look (way ++ [name]) ≠ some (.link target)) :
    ∃ way, files.wayTo root = .ok way ∧ files.look way = some .folder ∧ final = way ++ [name] := by
  rcases exists_follow_of_append led with ⟨left, way, ledToo, onward⟩
  refine ⟨way, ledToo, ?_⟩
  rw [notMem_specialNames_iff] at real
  rw [follow, advance_cons, stride] at onward
  cases here : files.look way with
  | none => simp [here] at onward
  | some content =>
      cases content with
      | file => simp [here] at onward
      | link => simp [here] at onward
      | folder =>
          refine ⟨rfl, ?_⟩
          cases there : files.look (way ++ [name]) with
          | none => simp [here, real, there] at onward
          | some below =>
              cases below with
              | link target => exact (noLink way target ledToo there).elim
              | _ =>
                  simp [here, real, there, advance] at onward
                  exact onward.symm

/-- The names of a listing are gone along from where their folder is. -/
theorem advance_of_leads {tree : FileTree} {way names : List String} {bytes : List UInt8}
    (there : files.at? way = some tree) (proper : tree.IsProper) (leads : tree.Leads names bytes) :
    advance files true way names = .arrived (way ++ names) := by
  induction leads generalizing way with
  | @file folder child bytes readable inside member here =>
      have inFolder := look_of_at? there
      have found : files.look (way ++ [child.value.name]) = some (.file bytes readable) := by
        rw [look_append there, look_child proper.isWellNamed member, ← here]
        rfl
      rw [inside] at inFolder
      rw [advance_cons, stride_of_real inFolder (proper.name_notMem member) found
        fun target impossible => nomatch impossible]
      rfl
  | @folder folder child names bytes inside member entered below inductionHypothesis =>
      have inFolder := look_of_at? there
      have next : files.at? (way ++ [child.value.name]) = some child := by
        rw [at?_append, there, Option.bind_some, at?_child proper.isWellNamed member]
        rfl
      have found := look_of_at? next
      have later := inductionHypothesis next (proper.child member)
      rw [inside] at inFolder
      rw [below.content_eq] at found
      rw [List.append_assoc] at later
      rw [advance_cons, stride_of_real inFolder (proper.name_notMem member) found
        fun target impossible => nomatch impossible]
      exact later

/-- A file that is listed below a folder is reached from wherever the folder is. -/
theorem wayTo_below {tree : FileTree} {root : Location} {way names : List String}
    {bytes : List UInt8} (led : files.wayTo root = .ok way) (there : files.at? way = some tree)
    (proper : tree.IsProper) (leads : tree.Leads names bytes) :
    files.wayTo (root.below names) = .ok (way ++ names) :=
  follow_append led (advance_of_leads there proper leads)

theorem reach_eq {root : Location} {way : List String} (led : files.wayTo root = .ok way) :
    files.reach root =
      match files.at? way with
      | some tree => .ok tree
      | none => .error .missing := by
  rw [wayTo] at led
  cases there : files.at? way <;> simp only [reach, led, there]

theorem exists_wayTo_of_reach {tree : FileTree} {root : Location}
    (reached : files.reach root = .ok tree) :
    ∃ way, files.wayTo root = .ok way ∧ files.at? way = some tree := by
  cases led : files.wayTo root with
  | error fault =>
      rw [wayTo] at led
      rw [reach, led] at reached
      cases reached
  | ok way =>
      rw [reach_eq led] at reached
      cases there : files.at? way with
      | none =>
          rw [there] at reached
          cases reached
      | some part =>
          rw [there] at reached
          cases reached
          exact ⟨way, rfl, there⟩

/-- The bytes of a file are read unless they must not be. -/
theorem read_of_look {location : Location} {way : List String} {bytes : List UInt8}
    {readable : Bool} (led : files.wayTo location = .ok way)
    (here : files.look way = some (.file bytes readable)) :
    files.read location = if readable then .ok bytes else .error .denied := by
  rcases Option.map_eq_some_iff.mp here with ⟨part, there, contentEq⟩
  rw [read, reach_eq led, there]
  simp only [contentEq]
  cases readable <;> rfl

/-- The bytes of all files in a tree that can be read. -/
def readable (files : FileTree) : List (List UInt8) :=
  files.preorder.filterMap fun entry =>
    match entry.content with
    | .file bytes true => some bytes
    | _ => none

/-- What is read at a location is among them. -/
theorem mem_readable_of_read {location : Location} {bytes : List UInt8}
    (read : files.read location = .ok bytes) : bytes ∈ files.readable := by
  unfold FileTree.read at read
  split at read
  · cases read
  · next part reached =>
      rcases exists_wayTo_of_reach reached with ⟨way, _, there⟩
      split at read
      · next content =>
          cases read
          rcases exists_entry_of_look (look_of_at? there) with ⟨entry, inTree, same⟩
          refine List.mem_filterMap.mpr ⟨entry, inTree, ?_⟩
          rw [same, content]
      · cases read
      · cases read
      · cases read

/-- A file is at a location if the location leads to one, whether it can be read or not. -/
theorem file?_eq_some_iff {location : Location} {bytes : List UInt8} :
    files.file? location = some bytes ↔
      ∃ way readable, files.wayTo location = .ok way ∧
        files.look way = some (.file bytes readable) := by
  constructor
  · intro found
    unfold file? at found
    split at found
    · cases found
    · next part reached =>
        rcases exists_wayTo_of_reach reached with ⟨way, led, there⟩
        split at found
        · next readable content =>
            cases found
            exact ⟨way, readable, led, (look_of_at? there).trans (congrArg some content)⟩
        · cases found
  · rintro ⟨way, readable, led, here⟩
    rcases Option.map_eq_some_iff.mp here with ⟨part, there, content⟩
    rw [file?, reach_eq led, there]
    simp only [content]

/-- What can be read is the file that is there. -/
theorem file?_of_read {location : Location} {bytes : List UInt8}
    (readable : files.read location = .ok bytes) : files.file? location = some bytes := by
  unfold read at readable
  unfold file?
  split at readable
  · cases readable
  · split at readable
    · next content =>
        cases readable
        simp [content]
    · cases readable
    · cases readable
    · cases readable

end FileTree

end CallbackLint
