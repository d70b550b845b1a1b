import CallbackLint.Proofs.Files.Access
import CallbackLint.Proofs.Files.Order

namespace CallbackLint

namespace FileTree

/-!
# Trees that differ in some files

Two trees may hold different files at some ways, or one of them nothing, and be the same
everywhere else.  Whoever goes along names cannot tell them apart before arriving at such
a way, since neither a file nor nothing leads any further.  So a location that leads
elsewhere leads to the same in both trees, and what is listed in one is listed in the
other but for these files.
-/

/-- There is a file or nothing at all. -/
def IsPlain : Option Content → Prop
  | none => True
  | some (.file _ _) => True
  | some _ => False

/-- Two trees are the same but for files at some ways. -/
structure DifferIn (ways : List String → Prop) (files other : FileTree) : Prop where
  elsewhere : ∀ way, ¬ ways way → other.look way = files.look way
  plain : ∀ way, ways way → IsPlain (files.look way)
  plainToo : ∀ way, ways way → IsPlain (other.look way)

theorem DifferIn.symm {ways : List String → Prop} {files other : FileTree}
    (differ : files.DifferIn ways other) : other.DifferIn ways files where
  elsewhere way outside := (differ.elsewhere way outside).symm
  plain := differ.plainToo
  plainToo := differ.plain

variable {ways : List String → Prop} {files other : FileTree} {folder way : List String}
  {name : String} {location : Location}

/-! ## One name -/

/-- Where a name leads depends on what the folder is, if it must exist, and on what stands
under the name, unless this is special. -/
theorem stride_congr {strict : Bool}
    (inFolder : strict = true → other.look folder = files.look folder)
    (found : name ∉ specialNames → other.look (folder ++ [name]) = files.look (folder ++ [name])) :
    stride other strict folder name = stride files strict folder name := by
  have inside : (strict && (other.look folder).isNone) = (strict && (files.look folder).isNone) ∧
      (strict && other.look folder != some .folder) =
        (strict && files.look folder != some .folder) := by
    cases strict with
    | false => exact ⟨rfl, rfl⟩
    | true =>
        rw [inFolder rfl]
        exact ⟨rfl, rfl⟩
  rw [stride, stride, inside.1, inside.2]
  by_cases real : name ∉ specialNames
  · rw [found real]
  · rw [notMem_specialNames_iff] at real
    have special : name = "" ∨ name = "." ∨ name = ".." := by
      by_contra none
      exact real (by simpa only [not_or] using none)
    rcases special with same | same | same <;> simp [same]

/-- What is plain lets nobody pass. -/
theorem stride_of_plain (plain : IsPlain (files.look folder)) :
    ∃ fault, stride files true folder name = .stuck fault := by
  rw [stride]
  cases found : files.look folder with
  | none => exact ⟨.missing, by simp⟩
  | some there =>
      have notAFolder : there ≠ .folder := by
        intro isFolder
        rw [found, isFolder] at plain
        exact plain
      exact ⟨.notAFolder, by simp [notAFolder]⟩

/-- A name leads onward to what is plain, or nowhere if there must be something. -/
theorem stride_to_plain (strict : Bool) (real : name ∉ specialNames)
    (plain : IsPlain (files.look (folder ++ [name]))) :
    stride files strict folder name = .onward (folder ++ [name]) ∨
      strict = true ∧ ∃ fault, stride files strict folder name = .stuck fault := by
  rw [notMem_specialNames_iff] at real
  have noLink : ∀ target, files.look (folder ++ [name]) ≠ some (.link target) := by
    intro target found
    rw [found] at plain
    exact plain
  rw [stride]
  by_cases absent : (strict && (files.look folder).isNone) = true
  · rw [if_pos absent]
    exact Or.inr ⟨(Bool.and_eq_true_iff.mp absent).1, _, rfl⟩
  · rw [if_neg absent]
    by_cases closed : (strict && files.look folder != some .folder) = true
    · rw [if_pos closed]
      exact Or.inr ⟨(Bool.and_eq_true_iff.mp closed).1, _, rfl⟩
    · rw [if_neg closed, if_neg (by simp [real]), if_neg real.2.2]
      cases found : files.look (folder ++ [name]) with
      | none => cases strict <;> simp
      | some there =>
          cases there with
          | file bytes readable => exact Or.inl rfl
          | folder => exact Or.inl rfl
          | link target => exact False.elim (noLink target found)

/-! ## Going along as if everything existed -/

namespace DifferIn

theorem stride_lenient (differ : files.DifferIn ways other) :
    stride other false folder name = stride files false folder name := by
  by_cases plain : name ∉ specialNames ∧ ways (folder ++ [name])
  · rcases stride_to_plain false plain.1 (differ.plain _ plain.2) with onward | ⟨impossible, _⟩
    · rcases stride_to_plain false plain.1 (differ.plainToo _ plain.2) with
        onwardToo | ⟨impossible, _⟩
      · rw [onward, onwardToo]
      · cases impossible
    · cases impossible
  · apply stride_congr
    · intro impossible
      cases impossible
    · intro real
      exact differ.elsewhere _ fun inWays => plain ⟨real, inWays⟩

theorem advance_lenient (differ : files.DifferIn ways other) (names : List String) :
    advance other false folder names = advance files false folder names := by
  induction names generalizing folder with
  | nil => rfl
  | cons name rest inductionHypothesis =>
      rw [advance_cons, advance_cons, differ.stride_lenient]
      cases stride files false folder name with
      | onward next => exact inductionHypothesis
      | diverted target => rfl
      | stuck fault => rfl

/-- A location stands for the same in both trees. -/
theorem resolve_eq (differ : files.DifferIn ways other) (location : Location) :
    other.resolve location = files.resolve location := by
  have same (links : Nat) (folder names : List String) :
      follow other false links folder names = follow files false links folder names := by
    fun_induction follow files false links folder names with
    | case1 links folder names final arrival =>
        rw [follow, differ.advance_lenient, arrival]
    | case2 links folder names fault arrival =>
        rw [follow, differ.advance_lenient, arrival]
    | case3 folder names inside target ahead arrival =>
        rw [follow, differ.advance_lenient, arrival]
    | case4 folder names inside target ahead arrival links whole inductionHypothesis =>
        rw [follow, differ.advance_lenient, arrival]
        exact inductionHypothesis
  rw [resolve, resolve, same]

/-! ## Going along what exists -/

theorem advance_of_plain (plain : IsPlain (files.look folder)) (rest : List String) :
    ∃ fault, advance files true folder (name :: rest) = .stuck fault := by
  rcases stride_of_plain plain with ⟨fault, stuck⟩
  exact ⟨fault, by rw [advance_cons, stuck]⟩

/-- Who arrives elsewhere, or at a link, has noticed no difference. -/
theorem advance_eq (differ : files.DifferIn ways other) {names : List String} {arrival : Arrival}
    (arrives : advance files true folder names = arrival)
    (notStuck : ∀ fault, arrival ≠ .stuck fault)
    (outside : ∀ final, arrival = .arrived final → ¬ ways final) :
    advance other true folder names = arrival := by
  rw [← arrives] at notStuck outside ⊢
  clear arrives
  induction names generalizing folder with
  | nil => rfl
  | cons name rest inductionHypothesis =>
      have inFolder : ¬ ways folder := by
        intro here
        rcases advance_of_plain (differ.plain folder here) rest with ⟨fault, stuck⟩
        exact notStuck fault stuck
      have same : stride other true folder name = stride files true folder name := by
        apply stride_congr (fun _ => differ.elsewhere folder inFolder)
        intro real
        apply differ.elsewhere
        intro next
        have plain := differ.plain _ next
        rcases stride_to_plain true real plain with onward | ⟨_, fault, stuck⟩
        · rw [advance_cons, onward] at notStuck outside
          cases rest with
          | nil => exact outside _ rfl next
          | cons second more =>
              rcases advance_of_plain plain more with ⟨fault, stuck⟩
              exact notStuck fault stuck
        · rw [advance_cons, stuck] at notStuck
          exact notStuck fault rfl
      rw [advance_cons] at notStuck outside
      rw [advance_cons, advance_cons, same]
      cases next : stride files true folder name with
      | onward inside =>
          rw [next] at notStuck outside
          exact inductionHypothesis notStuck outside
      | diverted target => rfl
      | stuck fault => rfl

/-- What leads elsewhere leads there in both trees. -/
theorem wayTo_eq (differ : files.DifferIn ways other) (led : files.wayTo location = .ok way)
    (outside : ¬ ways way) : other.wayTo location = .ok way := by
  have follows (links : Nat) (folder names : List String)
      (led : follow files true links folder names = .ok way) :
      follow other true links folder names = .ok way := by
    fun_induction follow files true links folder names with
    | case1 links folder names final arrival =>
        cases led
        have same : advance other true folder names = .arrived way := by
          apply differ.advance_eq arrival
          · intro fault impossible
            cases impossible
          · intro final arrived
            cases arrived
            exact outside
        rw [follow, same]
    | case2 links folder names fault arrival => cases led
    | case3 folder names inside target ahead arrival => cases led
    | case4 folder names inside target ahead arrival links whole inductionHypothesis =>
        have same : advance other true folder names = .diverted inside target ahead := by
          apply differ.advance_eq arrival
          · intro fault impossible
            cases impossible
          · intro final impossible
            cases impossible
        rw [follow, same]
        exact inductionHypothesis led
  exact follows linkLimit [] location.names led

end DifferIn

/-! ## Reading -/

theorem map_content_reach (led : files.wayTo location = .ok way) :
    (files.reach location).map content =
      match files.look way with
      | some there => .ok there
      | none => .error .missing := by
  rw [reach_eq led, look]
  cases files.at? way <;> rfl

theorem read_congr
    (same : (other.reach location).map content = (files.reach location).map content) :
    other.read location = files.read location ∧ other.file? location = files.file? location := by
  rw [read, read, file?, file?]
  cases reached : files.reach location with
  | error fault =>
      rw [reached] at same
      cases reachedToo : other.reach location with
      | error faultToo =>
          rw [reachedToo] at same
          cases same
          exact ⟨rfl, rfl⟩
      | ok tree =>
          rw [reachedToo] at same
          cases same
  | ok tree =>
      rw [reached] at same
      cases reachedToo : other.reach location with
      | error faultToo =>
          rw [reachedToo] at same
          cases same
      | ok treeToo =>
          rw [reachedToo] at same
          have contents : treeToo.content = tree.content := Except.ok.inj same
          simp only [contents, and_self]

/-- Two trees have the same file at a location, as far as anybody can tell who looks whether
there is one before opening it: what it is to open nothing may differ. -/
structure SameFile (files other : FileTree) (location : Location) : Prop where
  found : other.file? location = files.file? location
  opened : ∀ bytes, files.file? location = some bytes → other.read location = files.read location

theorem file?_of_lost {fault : AccessFault} (lost : files.wayTo location = .error fault) :
    files.file? location = none := by
  rw [wayTo] at lost
  rw [file?, reach, lost]

theorem file?_of_look (led : files.wayTo location = .ok way) (gone : files.look way = none) :
    files.file? location = none := by
  rw [file?, reach_eq led, Option.map_eq_none_iff.mp gone]

namespace DifferIn

theorem read_eq (differ : files.DifferIn ways other) (led : files.wayTo location = .ok way)
    (outside : ¬ ways way) :
    other.read location = files.read location ∧ other.file? location = files.file? location := by
  apply read_congr
  rw [map_content_reach led, map_content_reach (differ.wayTo_eq led outside),
    differ.elsewhere way outside]

/-- If a location leads to none of the ways, then it leads to the same file in both trees, or
to none in either; what is gone may have led elsewhere. -/
theorem sameFile (differ : files.DifferIn ways other)
    (outside : ∀ way, files.wayTo location = .ok way → ¬ ways way)
    (gone : ∀ way, other.wayTo location = .ok way → ways way → other.look way = none) :
    files.SameFile other location := by
  cases led : files.wayTo location with
  | ok way =>
      have same := differ.read_eq led (outside way led)
      exact ⟨same.2, fun _ _ => same.1⟩
  | error fault =>
      have lost := file?_of_lost led
      refine ⟨?_, by simp [lost]⟩
      rw [lost]
      cases ledToo : other.wayTo location with
      | error faultToo => exact file?_of_lost ledToo
      | ok way =>
          by_cases inWays : ways way
          · exact file?_of_look ledToo (gone way ledToo inWays)
          · have back := differ.symm.wayTo_eq ledToo inWays
            rw [led] at back
            cases back

/-! ## Listing -/

/-- Below a folder of both trees the same is listed, but for the files in which they
differ. -/
theorem filter_files (differ : files.DifferIn ways other) {tree treeToo : FileTree}
    (there : files.at? way = some tree) (thereToo : other.at? way = some treeToo)
    (proper : tree.IsProper) (properToo : treeToo.IsProper) {keep : FoundFile → Bool}
    (outside : ∀ file, keep file = true → ¬ ways (way ++ file.names)) :
    treeToo.files.filter keep = tree.files.filter keep := by
  apply eq_of_mem_iff ((pairwise_files properToo.isWellNamed).filter keep)
    ((pairwise_files proper.isWellNamed).filter keep)
  intro file
  rw [List.mem_filter, List.mem_filter, and_congr_left_iff]
  intro kept
  rw [mem_files_iff, mem_files_iff, leads_iff proper, leads_iff properToo,
    ← look_append there, ← look_append thereToo, differ.elsewhere _ (outside file kept)]

end DifferIn

/-! ## Taking files away -/

/-- Some locations lead to a way. -/
def LeadTo (files : FileTree) (locations : List Location) (way : List String) : Prop :=
  ∃ location ∈ locations, files.wayTo location = .ok way

/-- A tree is another one without what stands at some locations. -/
structure Lacks (files : FileTree) (locations : List Location) (other : FileTree) : Prop where
  gone : ∀ way, files.LeadTo locations way → other.look way = none
  kept : ∀ way, ¬ files.LeadTo locations way → other.look way = files.look way

theorem Lacks.differIn {locations : List Location} (lacks : files.Lacks locations other)
    (plain : ∀ way, files.LeadTo locations way → IsPlain (files.look way)) :
    files.DifferIn (files.LeadTo locations) other where
  elsewhere := lacks.kept
  plain := plain
  plainToo way inWays := by
    rw [lacks.gone way inWays]
    trivial

theorem IsProper.look_of_file {tree : FileTree} {bytes : List UInt8} {readable : Bool}
    (proper : tree.IsProper) (isFile : tree.content = .file bytes readable) (rest : List String) :
    tree.look (name :: rest) = none := by
  apply Option.eq_none_iff_forall_ne_some.mpr
  intro there found
  rcases exists_child_of_look found with ⟨child, member, _⟩
  rw [proper.content_eq member] at isFile
  cases isFile

section TopFolder

variable {entry : Entry} {before after : List FileTree} {child : FileTree} {bytes : List UInt8}
  {readable : Bool}

theorem leadTo_child_iff (proper : IsProper (.node entry (before ++ child :: after)))
    (isFile : child.content = .file bytes readable) (way : List String) :
    LeadTo (.node entry (before ++ child :: after)) [{ names := [child.value.name] }] way ↔
      way = [child.value.name] := by
  have member : child ∈ before ++ child :: after := List.mem_append_right _ List.mem_cons_self
  have leads : Leads (.node entry (before ++ child :: after)) [child.value.name] bytes :=
    .file (proper.content_eq member) member isFile
  have led : wayTo (.node entry (before ++ child :: after)) { names := [child.value.name] } =
      .ok [child.value.name] :=
    @wayTo_below _ (.node entry (before ++ child :: after)) {} [] _ _ rfl rfl proper leads
  simp only [LeadTo, List.mem_singleton, exists_eq_left, led, Except.ok.injEq, eq_comm]

/-- A tree lacks a file in its top folder if this is taken out. -/
theorem lacks_child (proper : IsProper (.node entry (before ++ child :: after)))
    (isFile : child.content = .file bytes readable) :
    Lacks (.node entry (before ++ child :: after)) [{ names := [child.value.name] }]
      (.node entry (before ++ after)) := by
  have member : child ∈ before ++ child :: after := List.mem_append_right _ List.mem_cons_self
  have none (rest : List String) :
      look (.node entry (before ++ after)) (child.value.name :: rest) = none := by
    have distinct := (isProper_node_iff.mp proper).1.distinct
    rw [List.map_append, List.map_append, List.map_cons, List.map_cons, List.nodup_middle,
      List.nodup_cons, ← List.map_append, ← List.map_append] at distinct
    apply Option.eq_none_iff_forall_ne_some.mpr
    intro there found
    rcases exists_child_of_look found with ⟨other, listed, same, _⟩
    exact distinct.1 (same ▸ List.mem_map_of_mem (List.mem_map_of_mem listed))
  constructor
  · intro way here
    rw [(leadTo_child_iff proper isFile way).mp here]
    exact none []
  · intro way elsewhere
    rw [leadTo_child_iff proper isFile] at elsewhere
    cases way with
    | nil => rfl
    | cons name rest =>
        by_cases same : name = child.value.name
        · rw [same] at elsewhere ⊢
          rw [none, look_child proper.isWellNamed member]
          cases rest with
          | nil => exact False.elim (elsewhere rfl)
          | cons second more => rw [(proper.child member).look_of_file isFile]
        · have found : child? (.node entry (before ++ after)) name =
              child? (.node entry (before ++ child :: after)) name := by
            have passed : ¬ (child.value.name == name) = true := fun equal =>
              same (beq_iff_eq.mp equal).symm
            rw [child?, child?, Rose.children_node, Rose.children_node, List.find?_append,
              List.find?_append]
            congr 1
            refine (List.find?_cons_of_neg ?_).symm
            exact passed
          rw [look, look, FileTree.at?, FileTree.at?, found]

theorem isPlain_look_child (proper : IsProper (.node entry (before ++ child :: after)))
    (isFile : child.content = .file bytes readable) :
    IsPlain (look (.node entry (before ++ child :: after)) [child.value.name]) := by
  have member : child ∈ (Rose.node entry (before ++ child :: after)).children :=
    List.mem_append_right _ List.mem_cons_self
  have here : child.look [] = some child.content := rfl
  rw [look_child proper.isWellNamed member, here, isFile]
  trivial

/-- Trees with different files of one name in their top folder differ in these. -/
theorem differIn_child {another : FileTree} {others : List UInt8} {readableToo : Bool}
    (proper : IsProper (.node entry (before ++ child :: after)))
    (isFile : child.content = .file bytes readable)
    (properToo : IsProper (.node entry (before ++ another :: after)))
    (isFileToo : another.content = .file others readableToo)
    (sameName : another.value.name = child.value.name) :
    DifferIn (· = [child.value.name]) (.node entry (before ++ child :: after))
      (.node entry (before ++ another :: after)) where
  elsewhere way outside := by
    have first := (lacks_child proper isFile).kept way
    have second := (lacks_child properToo isFileToo).kept way
    rw [leadTo_child_iff proper isFile] at first
    rw [leadTo_child_iff properToo isFileToo, sameName] at second
    exact (second outside).symm.trans (first outside)
  plain way here := by
    rw [here]
    exact isPlain_look_child proper isFile
  plainToo way here := by
    rw [here, ← sameName]
    exact isPlain_look_child properToo isFileToo

end TopFolder

end FileTree

end CallbackLint
