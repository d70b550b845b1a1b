import CallbackLint.Proofs.Command.Check
import CallbackLint.Proofs.Text.Encoding

namespace CallbackLint

/-!
# Loading settings

The bytes of a settings file pass three layers: they are a text, the text is a document, and
the document describes settings.  What loading comes to says which layer they fail at, and
whoever fails at the last one is told of at least one problem, each at a key of the
document.

The first layer stands apart.  The other two have faults of the contents, which the program
reports to its user; bytes that are no text have none.
-/

namespace Reading

variable {α : Type} {reading : Reading α}

/-- A reading that comes to no result has a problem. -/
def IsExplained (reading : Reading α) : Prop :=
  reading.problems = [] → ∃ result, reading = .ok result

theorem isExplained_ok (result : α) : IsExplained (.ok result) :=
  fun _ => ⟨result, rfl⟩

theorem isExplained_fail (fault : Fault) : IsExplained (.fail fault : Reading α) := by
  intro none
  cases none

theorem IsExplained.below (explained : reading.IsExplained) (step : Step) :
    (reading.below step).IsExplained := by
  cases reading with
  | ok result => exact isExplained_ok result
  | error problems =>
      intro none
      rcases explained (List.map_eq_nil_iff.mp none) with ⟨_, impossible⟩
      cases impossible

theorem exists_way_of_mem_below {step : Step} {problem : Problem}
    (member : problem ∈ (reading.below step).problems) : ∃ rest, problem.way = step :: rest := by
  cases reading with
  | ok result => cases member
  | error problems =>
      rcases List.mem_map.mp member with ⟨inner, _, rfl⟩
      exact ⟨inner.way, rfl⟩

end Reading

namespace Datum

open Reading

/-! ## Fields -/

theorem isExplained_readTextsFrom (place : Nat) (items : List Datum) :
    (readTextsFrom place items).IsExplained := by
  induction items generalizing place with
  | nil => exact isExplained_ok []
  | cons item rest inductionHypothesis =>
      unfold readTextsFrom
      dsimp only
      split
      · exact isExplained_ok _
      · next head tail notBoth =>
          intro none
          rcases List.append_eq_nil_iff.mp none with ⟨noneFirst, noneLater⟩
          rcases inductionHypothesis (place + 1) noneLater with ⟨values, later⟩
          cases item with
          | text value => exact (notBoth value values rfl later).elim
          | _ => cases noneFirst

theorem isExplained_readTexts (value : Datum) : value.readTexts.IsExplained := by
  cases value with
  | list items => exact isExplained_readTextsFrom 0 items
  | _ => exact isExplained_fail _

theorem isExplained_readTruth (value : Int) : (readTruth value).IsExplained := by
  unfold readTruth
  split
  · exact isExplained_ok _
  · split
    · exact isExplained_ok _
    · exact isExplained_fail _

theorem isExplained_readBoolean (value : Datum) : value.readBoolean.IsExplained := by
  unfold readBoolean
  split
  · exact isExplained_ok _
  · split
    · exact isExplained_readTruth _
    · exact isExplained_fail _
  · split
    · exact isExplained_readTruth _
    · exact isExplained_fail _
  · dsimp only
    split
    · exact isExplained_ok _
    · split
      · exact isExplained_ok _
      · exact isExplained_fail _
  · exact isExplained_fail _

theorem isExplained_readNames (value : Datum) : (readNames value).IsExplained := by
  unfold readNames
  split
  · exact isExplained_ok _
  · split
    · exact isExplained_ok _
    · exact isExplained_fail _
  · exact isExplained_fail _

/-! ## Records -/

variable {α : Type} {entries : List (String × Datum)} {key : String} {problem : Problem}
  {default : α} {reader : Datum → Reading α}

theorem readTable_ne_nil {record : Record} {value : Datum} {problems : List Problem}
    (given : value.readTable record = .error problems) : problems ≠ [] := by
  unfold readTable at given
  split at given
  · cases given
  · cases given
    exact List.cons_ne_nil _ _

theorem isExplained_readField (explained : ∀ value, (reader value).IsExplained)
    (entries : List (String × Datum)) : (readField key default reader entries).IsExplained := by
  unfold readField
  split
  · exact (explained _).below _
  · exact isExplained_ok _

/-- The problem is at a key of a table. -/
def IsAtKey (entries : List (String × Datum)) (problem : Problem) : Prop :=
  ∃ entry ∈ entries, ∃ rest, problem.way = .key entry.1 :: rest

theorem exists_entry_of_find? {value : Datum} (found : find? key entries = some value) :
    ∃ entry ∈ entries, entry.1 = key := by
  rcases Option.map_eq_some_iff.mp found with ⟨entry, first, _⟩
  have same : (entry.1 == key) = true := by simpa using List.find?_some first
  exact ⟨entry, List.mem_of_find?_eq_some first, eq_of_beq same⟩

theorem isAtKey_of_mem_readField
    (member : problem ∈ (readField key default reader entries).problems) :
    IsAtKey entries problem := by
  unfold readField at member
  split at member
  · next value found =>
      rcases exists_entry_of_find? found with ⟨entry, listed, rfl⟩
      exact ⟨entry, listed, exists_way_of_mem_below member⟩
  · cases member

theorem isAtKey_of_mem_unknownKeys {known : List String}
    (member : problem ∈ unknownKeys known entries) : IsAtKey entries problem := by
  rcases List.mem_map.mp member with ⟨entry, listed, rfl⟩
  exact ⟨entry, List.mem_of_mem_filter listed, [], rfl⟩

end Datum

open Datum Reading

theorem Options.isExplained_read (value : Datum) : (Options.read value).IsExplained := by
  unfold Options.read
  split
  · next problems given => exact fun none => (readTable_ne_nil given none).elim
  · dsimp only
    split
    · exact isExplained_ok _
    · next names unknown notBoth =>
        intro none
        rcases List.append_eq_nil_iff.mp none with ⟨noneInNames, noneUnknown⟩
        rcases isExplained_readField isExplained_readNames _ noneInNames with ⟨found, read⟩
        exact (notBoth found read noneUnknown).elim

theorem Options.isExplained_readAmongRules (value : Datum) :
    (Options.readAmongRules value).IsExplained := by
  unfold Options.readAmongRules
  split
  · next problems given => exact fun none => (readTable_ne_nil given none).elim
  · dsimp only
    split
    · exact isExplained_ok _
    · next options unknown notBoth =>
        intro none
        rcases List.append_eq_nil_iff.mp none with ⟨noneInOptions, noneUnknown⟩
        rcases isExplained_readField Options.isExplained_read _ noneInOptions with ⟨found, read⟩
        exact (notBoth found read noneUnknown).elim

namespace Settings

theorem isExplained_read (value : Datum) : (read value).IsExplained := by
  unfold read
  split
  · next problems given => exact fun none => (readTable_ne_nil given none).elim
  · dsimp only
    split
    · exact isExplained_ok _
    · next included excluded nestedIgnoring options unknown notAll =>
        intro none
        simp only [problems, List.append_eq_nil_iff] at none
        rcases none with ⟨⟨⟨⟨first, second⟩, third⟩, fourth⟩, noneUnknown⟩
        rcases isExplained_readField isExplained_readTexts _ first with ⟨_, readFirst⟩
        rcases isExplained_readField isExplained_readTexts _ second with ⟨_, readSecond⟩
        rcases isExplained_readField isExplained_readBoolean _ third with ⟨_, readThird⟩
        rcases isExplained_readField Options.isExplained_readAmongRules _ fourth with
          ⟨_, readFourth⟩
        exact (notAll _ _ _ _ readFirst readSecond readThird readFourth noneUnknown).elim

theorem isAtKey_of_mem_read {entries : List (String × Datum)} {problem : Problem}
    (member : problem ∈ (read (.table entries)).problems) : IsAtKey entries problem := by
  unfold read at member
  simp only [readTable] at member
  split at member
  · cases member
  · simp only [problems, List.mem_append] at member
    rcases member with (((member | member) | member) | member) | member
    · exact isAtKey_of_mem_readField member
    · exact isAtKey_of_mem_readField member
    · exact isAtKey_of_mem_readField member
    · exact isAtKey_of_mem_readField member
    · exact isAtKey_of_mem_unknownKeys member

/-! ## The file -/

/-- What the bytes of a settings file come to, by the layer that decides it. -/
def ComesTo (file : Location) (bytes : List UInt8) : Except SettingsFault Settings → Prop
  | .ok settings => ∃ text document, bytes = Utf8.encode text ∧
      Toml.read? text = some document ∧ read document = .ok settings
  | .error .notText => ∀ text, bytes ≠ Utf8.encode text
  | .error (.malformed named) => named = file ∧
      ∃ text, bytes = Utf8.encode text ∧ Toml.read? text = none
  | .error (.invalid named problems) => named = file ∧
      ∃ text document, bytes = Utf8.encode text ∧ Toml.read? text = some document ∧
        read document = .error problems
  | .error (.unreadable _) => False

theorem ofBytes_eq_iff {file : Location} {bytes : List UInt8}
    {outcome : Except SettingsFault Settings} :
    ofBytes file bytes = outcome ↔ ComesTo file bytes outcome := by
  constructor
  · rintro rfl
    unfold ofBytes
    split
    · next noText => exact Utf8.decode?_eq_none_iff.mp noText
    · next text decoded =>
        have encoded := Utf8.decode?_eq_some_iff.mp decoded
        split
        · next noDocument => exact ⟨rfl, text, encoded, noDocument⟩
        · next document parsed =>
            split
            · next settings described => exact ⟨text, document, encoded, parsed, described⟩
            · next problems found => exact ⟨rfl, text, document, encoded, parsed, found⟩
  · intro comesTo
    unfold ofBytes
    cases outcome with
    | ok settings =>
        rcases comesTo with ⟨text, document, encoded, parsed, described⟩
        simp [Utf8.decode?_eq_some_iff.mpr encoded, parsed, described]
    | error fault =>
        cases fault with
        | unreadable => exact comesTo.elim
        | notText => simp [Utf8.decode?_eq_none_iff.mpr comesTo]
        | malformed =>
            rcases comesTo with ⟨rfl, text, encoded, noDocument⟩
            simp [Utf8.decode?_eq_some_iff.mpr encoded, noDocument]
        | invalid =>
            rcases comesTo with ⟨rfl, text, document, encoded, parsed, found⟩
            simp [Utf8.decode?_eq_some_iff.mpr encoded, parsed, found]

/-- How the settings for a folder are loaded from the bytes of its file.  For bytes that are no text
there is neither a result nor a fault of the contents, and the run breaks off. -/
structure LoadsBytes (files : FileTree) (folder : Location) (bytes : List UInt8) : Prop where
  comesTo : ∀ outcome, load files folder = outcome ↔
    ComesTo (folder.below [fileName]) bytes outcome
  /-- There are settings or a fault of the contents exactly if the bytes are a text. -/
  decides : ((∃ settings, load files folder = .ok settings) ∨
      ∃ fault, load files folder = .error fault ∧ fault.IsInContents) ↔
    ∃ text, bytes = Utf8.encode text
  /-- A document that does not describe settings has a problem, and each is at one of its
  keys. -/
  explains : ∀ file problems, load files folder = .error (.invalid file problems) →
    problems ≠ [] ∧ ∃ text entries, bytes = Utf8.encode text ∧
      Toml.read? text = some (.table entries) ∧ ∀ problem ∈ problems, IsAtKey entries problem

section Load

variable {files : FileTree} {folder : Location} {bytes : List UInt8}

theorem load_eq_ofBytes (readable : files.read (folder.below [fileName]) = .ok bytes) :
    load files folder = ofBytes (folder.below [fileName]) bytes := by
  unfold load
  simp only [FileTree.file?_of_read readable, readable]

theorem exists_table_of_read? {text : List Char} {document : Datum}
    (parsed : Toml.read? text = some document) : ∃ entries, document = .table entries := by
  unfold Toml.read? at parsed
  dsimp only at parsed
  split at parsed
  · cases parsed
    exact ⟨_, rfl⟩
  · cases parsed

theorem loadsBytes (readable : files.read (folder.below [fileName]) = .ok bytes) :
    LoadsBytes files folder bytes := by
  have comesTo outcome : load files folder = outcome ↔
      ComesTo (folder.below [fileName]) bytes outcome := by
    rw [load_eq_ofBytes readable]
    exact ofBytes_eq_iff
  refine ⟨comesTo, ⟨?_, ?_⟩, ?_⟩
  · rintro (⟨settings, loaded⟩ | ⟨fault, loaded, inContents⟩)
    · rcases (comesTo _).mp loaded with ⟨text, _, encoded, _⟩
      exact ⟨text, encoded⟩
    · have decided := (comesTo _).mp loaded
      cases fault with
      | unreadable => exact inContents.elim
      | notText => exact inContents.elim
      | malformed =>
          rcases decided with ⟨_, text, encoded, _⟩
          exact ⟨text, encoded⟩
      | invalid =>
          rcases decided with ⟨_, text, _, encoded, _⟩
          exact ⟨text, encoded⟩
  · rintro ⟨text, encoded⟩
    cases loaded : load files folder with
    | ok settings => exact Or.inl ⟨settings, rfl⟩
    | error fault =>
        have decided := (comesTo _).mp loaded
        refine Or.inr ⟨fault, rfl, ?_⟩
        cases fault with
        | unreadable => exact decided.elim
        | notText => exact decided text encoded
        | malformed => trivial
        | invalid => trivial
  · intro file problems failed
    rcases (comesTo _).mp failed with ⟨_, text, document, encoded, parsed, found⟩
    rcases exists_table_of_read? parsed with ⟨entries, rfl⟩
    refine ⟨?_, text, entries, encoded, parsed, ?_⟩
    · rintro rfl
      rcases isExplained_read (.table entries) (by rw [found, problems]) with ⟨_, impossible⟩
      cases found.symm.trans impossible
    · intro problem member
      apply isAtKey_of_mem_read
      rw [found]
      exact member

end Load

/-- Without a file the settings are the default ones.  With a file that can be read, what its
bytes come to is what loading comes to, and only bytes that are no text lead to neither
settings nor a fault of the contents. -/
theorem load_comesTo (files : FileTree) (folder : Location) :
    (files.file? (folder.below [fileName]) = none → load files folder = .ok {}) ∧
      ∀ bytes, files.read (folder.below [fileName]) = .ok bytes →
        LoadsBytes files folder bytes := by
  refine ⟨?_, fun bytes readable => loadsBytes readable⟩
  intro noFile
  unfold load
  simp only [noFile]

def onlySettings (bytes : List UInt8) : FileTree :=
  .node { name := "" } [.node { name := fileName, content := .file bytes } []]

/-- A document with an unknown key, and a folder without a file. -/
theorem load_comesTo_unknownKey :
    let bytes := "names = []\n".toUTF8.toList
    let files := onlySettings bytes
    (files.read { names := [fileName] } = .ok bytes ∧ LoadsBytes files {} bytes ∧
        load files {} = .error (.invalid { names := [fileName] }
          [{ way := [.key "names"], fault := .unknownKey }])) ∧
      (files.file? { names := ["lib", fileName] } = none ∧
        load files { names := ["lib"] } = .ok {}) := by
  intro bytes files
  have readable : files.read { names := [fileName] } = .ok bytes := by decide +kernel
  have noFile : files.file? { names := ["lib", fileName] } = none := by decide +kernel
  exact ⟨⟨readable, (load_comesTo files {}).2 bytes readable, by decide +kernel⟩, noFile,
    (load_comesTo files { names := ["lib"] }).1 noFile⟩

/-- A byte that is no text leads to neither settings nor a fault of the contents. -/
theorem load_strayByte :
    let files := onlySettings [0xFF]
    files.read { names := [fileName] } = .ok [0xFF] ∧
      load files {} = .error .notText ∧
      ¬ ((∃ settings, load files {} = .ok settings) ∨
        ∃ fault, load files {} = .error fault ∧ fault.IsInContents) := by
  intro files
  have loaded : load files {} = .error .notText := by decide +kernel
  refine ⟨by decide +kernel, loaded, ?_⟩
  rw [loaded]
  rintro (⟨settings, impossible⟩ | ⟨fault, same, inContents⟩)
  · cases impossible
  · cases same
    exact inContents

end Settings

end CallbackLint
