import CallbackLint.Command.Run
import CallbackLint.Proofs.Checking.Folder
import CallbackLint.Proofs.Command.Invocation
import CallbackLint.Proofs.Settings.Dumping
import CallbackLint.Proofs.Settings.Names

namespace CallbackLint

/-!
# Checking from the command line

A check is refused, before any script is looked at, if the settings file makes no sense or
else a name of the command line does not.  Otherwise the report is the text or the document of
what the check of the folder finds under the settings, with the names of the command line in
the place of theirs, and the status says whether it finds anything.  All of this holds for any
parser that stays within what it is given.

The words for the format and the notes have no effect on the status.  Names have the same effect
wherever they come from, with one exception.  The ignore file of the folder may be a link to the
settings file, and then other names in the settings are other rules about what is ignored.
-/

/-- The settings file is there and can be read, but makes no sense. -/
def SettingsFault.IsInContents : SettingsFault → Prop
  | .malformed _ | .invalid _ _ => True
  | .unreadable _ | .notText => False

def Settings.withNames (settings : Settings) : Option (List String) → Settings
  | some names => { settings with options := { names := names.eraseDups } }
  | none => settings

/-- Some name of the command line is not accepted. -/
def Arguments.HasBadName (arguments : Arguments) : Prop :=
  ∃ names, arguments.callbacks = some names ∧
    ∃ name ∈ names, CallbackName.isAccepted name.toList = false

namespace Command

def nameLines (name : String) : List String :=
  "invalid --callbacks: 1 validation error for CallbackReturnOptions" :: (badName name).lines

def refusal (arguments : Arguments) (root : Location) (lines : List String) : Outcome where
  status := 2
  lines := shownNotes arguments.verbose [.started root.text] ++ errorLines lines

def completion (arguments : Arguments) (root : Location) (findings : Findings)
    (output : String) : Outcome where
  status := if findings.diagnostics.isEmpty then 0 else 1
  output := output
  lines := shownNotes arguments.verbose [.started root.text] ++
    shownNotes arguments.verbose findings.notes

/-- The outcome of showing what is found. -/
def conclude (arguments : Arguments) (root : Location) (findings : Findings) :
    Except Breakdown Outcome :=
  match render arguments.format findings.diagnostics with
  | .ok output => .ok (completion arguments root findings output)
  | .error overflow => .error (.oversizedInteger overflow.value)

/-! ## Settings -/

variable {parse : List UInt8 → Script} {surroundings : Surroundings} {arguments : Arguments}
  {files : FileTree} {root : Location} {settings : Settings} {callbacks : Option (List String)}

theorem settingsFor_of_fault {fault : SettingsFault}
    (loaded : Settings.load files root = .error fault) (inContents : fault.IsInContents) :
    settingsFor files root callbacks = .ok (.error fault.lines) := by
  rw [settingsFor, loaded]
  cases fault with
  | unreadable => exact False.elim inContents
  | notText => exact False.elim inContents
  | malformed => rfl
  | invalid => rfl

theorem report_badName (name : String) :
    Problem.report .options [badName name] =
      "1 validation error for CallbackReturnOptions" :: (badName name).lines := by
  rw [Problem.report, List.flatMap_singleton, List.length_singleton]
  apply congrArg (· :: (badName name).lines)
  decide +kernel

theorem settingsFor_of_settings (loaded : Settings.load files root = .ok settings) :
    settingsFor files root callbacks =
      match callbacks.bind CallbackName.rejected? with
      | some name => .ok (.error (nameLines name))
      | none => .ok (.ok (settings.withNames callbacks)) := by
  rw [settingsFor, loaded]
  cases callbacks with
  | none => rfl
  | some names =>
      rw [Option.bind_some]
      simp only [Options.read_texts]
      cases CallbackName.rejected? names with
      | none => rfl
      | some name =>
          simp only [report_badName, nameLines]
          rfl

/-! ## Outcomes -/

/-- A check locates the folder, makes up its settings and checks it. -/
theorem check_eq (parse : List UInt8 → Script) (surroundings : Surroundings)
    (arguments : Arguments) :
    check parse surroundings arguments =
      match rootOf surroundings arguments.root with
      | .error breakdown => .error breakdown
      | .ok root =>
        match settingsFor surroundings.files root arguments.callbacks with
        | .error breakdown => .error breakdown
        | .ok (.error lines) => .ok (refusal arguments root lines)
        | .ok (.ok settings) =>
          match Checking.checkFolder parse surroundings.files settings root with
          | .ok findings => conclude arguments root findings
          | .error fault => .error (.ignoring fault) := by
  rw [check]
  cases rootOf surroundings arguments.root with
  | error breakdown => rfl
  | ok root =>
      simp only [bind, Except.bind]
      cases settingsFor surroundings.files root arguments.callbacks with
      | error breakdown => rfl
      | ok result =>
          cases result with
          | error lines => rfl
          | ok settings =>
              simp only [conclude]
              cases Checking.checkFolder parse surroundings.files settings root with
              | error fault => rfl
              | ok findings =>
                  simp only [Except.mapError]
                  cases render arguments.format findings.diagnostics with
                  | error overflow => rfl
                  | ok output => rfl

theorem exists_line {fault : SettingsFault} (inContents : fault.IsInContents) :
    ∃ first rest, fault.lines = first :: rest := by
  cases fault with
  | unreadable => exact False.elim inContents
  | notText => exact False.elim inContents
  | malformed => exact ⟨_, _, rfl⟩
  | invalid => exact ⟨_, _, rfl⟩

/-- A report comes about if its integers fit into a document. -/
theorem exists_output {diagnostics : List Diagnostic} (fits : overflows diagnostics = [])
    (format : Format) : ∃ output, render format diagnostics = .ok output := by
  cases format with
  | text => exact ⟨_, rfl⟩
  | json =>
      rw [render, renderJson, fits]
      exact ⟨_, rfl⟩

theorem run_eq_check {words : List String} (asked : Arguments.read words = .check arguments) :
    run parse surroundings words = check parse surroundings arguments := by
  rw [run, asked]

theorem rejected?_of_hasBadName (bad : arguments.HasBadName) :
    ∃ name, arguments.callbacks.bind CallbackName.rejected? = some name := by
  rcases bad with ⟨names, given, name, member, notAccepted⟩
  rw [given, Option.bind_some]
  apply Option.ne_none_iff_exists'.mp
  intro none
  rw [CallbackName.rejected?_eq_none_iff.mp none name member] at notAccepted
  cases notAccepted

theorem rejected?_of_accepted (accepted : ¬ arguments.HasBadName) :
    arguments.callbacks.bind CallbackName.rejected? = none := by
  cases given : arguments.callbacks with
  | none => rfl
  | some names =>
      apply CallbackName.rejected?_eq_none_iff.mpr
      intro name member
      by_contra notAccepted
      exact accepted ⟨names, given, name, member, Bool.eq_false_iff.mpr notAccepted⟩

/-! ## The contract -/

/-- A check is refused: there is no report, no script is read, and what is wrong is said. -/
structure IsRefusal (arguments : Arguments) (root : Location) (wrong : List String)
    (outcome : Outcome) : Prop where
  status : outcome.status = 2
  output : outcome.output = ""
  lines : ∃ first rest, wrong = first :: rest ∧
    outcome.lines = shownNotes arguments.verbose [.started root.text] ++
      s!"error: {first}" :: rest

/-- A check is carried out: the report shows what is found in the format that is asked for, and
the status says whether it is anything. -/
structure Reports (arguments : Arguments) (root : Location) (findings : Findings)
    (outcome : Outcome) : Prop where
  status : outcome.status = if findings.diagnostics = [] then 0 else 1
  text : arguments.format = .text → outcome.output = renderText findings.diagnostics
  document : arguments.format = .json → renderJson findings.diagnostics = .ok outcome.output
  lines : outcome.lines = shownNotes arguments.verbose (.started root.text :: findings.notes)

/-- What a check does with its words.  The three ways to come out exclude each other: bad settings,
good settings with a bad name, and neither.  Nothing is said about a search or settings that break
the run off. -/
structure FollowsContract (parse : List UInt8 → Script) (surroundings : Surroundings)
    (words : List String) (arguments : Arguments) (root : Location) : Prop where
  /-- It is refused exactly for bad settings and for bad names. -/
  refuses : (∃ outcome, run parse surroundings words = .ok outcome ∧ outcome.status = 2) ↔
    (∃ fault, Settings.load surroundings.files root = .error fault) ∨ arguments.HasBadName
  /-- Bad settings are reported whether the names are good or not. -/
  badSettings : ∀ fault, Settings.load surroundings.files root = .error fault →
    ∃ outcome, run parse surroundings words = .ok outcome ∧
      IsRefusal arguments root fault.lines outcome
  /-- The first bad name is reported. -/
  badName : ∀ settings name, Settings.load surroundings.files root = .ok settings →
    arguments.callbacks.bind CallbackName.rejected? = some name →
    ∃ outcome, run parse surroundings words = .ok outcome ∧
      IsRefusal arguments root (nameLines name) outcome
  /-- Otherwise the folder is checked with the names of the command line. -/
  checks : ∀ settings findings, Settings.load surroundings.files root = .ok settings →
    ¬ arguments.HasBadName →
    Checking.checkFolder parse surroundings.files (settings.withNames arguments.callbacks) root =
      .ok findings →
    ∃ outcome, run parse surroundings words = .ok outcome ∧
      Reports arguments root findings outcome

theorem isRefusal_refusal (arguments : Arguments) (root : Location) (first : String)
    (rest : List String) :
    IsRefusal arguments root (first :: rest) (refusal arguments root (first :: rest)) where
  status := rfl
  output := rfl
  lines := ⟨first, rest, rfl, rfl⟩

theorem reports_completion (root : Location) {findings : Findings} {output : String}
    (rendered : render arguments.format findings.diagnostics = .ok output) :
    Reports arguments root findings (completion arguments root findings output) where
  status := by simp only [completion, List.isEmpty_iff]
  text := by
    intro isText
    rw [isText] at rendered
    exact (Except.ok.inj rendered).symm
  document := by
    intro isDocument
    rw [isDocument] at rendered
    exact rendered
  lines := by simp only [completion, shownNotes, ← List.map_append, ← List.filter_append,
    List.singleton_append]

section Contract

variable {words : List String} (asked : Arguments.read words = .check arguments)
  (located : rootOf surroundings arguments.root = .ok root)

include asked located

theorem run_of_fault {fault : SettingsFault}
    (loaded : Settings.load surroundings.files root = .error fault)
    (inContents : fault.IsInContents) :
    ∃ outcome, run parse surroundings words = .ok outcome ∧
      IsRefusal arguments root fault.lines outcome := by
  rcases exists_line inContents with ⟨first, rest, lines⟩
  refine ⟨refusal arguments root fault.lines, ?_, lines ▸ isRefusal_refusal _ _ _ _⟩
  rw [run_eq_check asked, check_eq, located]
  simp only [settingsFor_of_fault loaded inContents]

theorem run_of_badName {name : String}
    (loaded : Settings.load surroundings.files root = .ok settings)
    (rejected : arguments.callbacks.bind CallbackName.rejected? = some name) :
    ∃ outcome, run parse surroundings words = .ok outcome ∧
      IsRefusal arguments root (nameLines name) outcome := by
  refine ⟨refusal arguments root (nameLines name), ?_, isRefusal_refusal _ _ _ _⟩
  rw [run_eq_check asked, check_eq, located]
  simp only [settingsFor_of_settings loaded, rejected]

/-- With good settings and good names, what is found is shown. -/
theorem run_of_accepted (loaded : Settings.load surroundings.files root = .ok settings)
    (accepted : ¬ arguments.HasBadName) :
    run parse surroundings words =
      match Checking.checkFolder parse surroundings.files
        (settings.withNames arguments.callbacks) root with
      | .ok findings => conclude arguments root findings
      | .error fault => .error (.ignoring fault) := by
  rw [run_eq_check asked, check_eq, located]
  simp only [settingsFor_of_settings loaded, rejected?_of_accepted accepted]

/-- What is found comes from the scripts that are found, one after the other. -/
theorem run_of_found (loaded : Settings.load surroundings.files root = .ok settings)
    (accepted : ¬ arguments.HasBadName) (proper : surroundings.files.IsProper)
    {found : List FoundFile}
    (discovered : Discovery.find surroundings.files root
      (Checking.selectionOf (settings.withNames arguments.callbacks))
      (settings.withNames arguments.callbacks).nestedIgnoring = .ok found) :
    run parse surroundings words =
      conclude arguments root (Checking.findingsOf parse surroundings.files
        (settings.withNames arguments.callbacks).options.names root found) := by
  rw [run_of_accepted asked located loaded accepted, Checking.checkFolder_eq discovered
    fun file member => (Checking.isListed_of_found proper discovered file member).2.2]

/-- So nothing is refused then. -/
theorem status_of_accepted (loaded : Settings.load surroundings.files root = .ok settings)
    (accepted : ¬ arguments.HasBadName) {outcome : Outcome}
    (ran : run parse surroundings words = .ok outcome) : outcome.status ≠ 2 := by
  rw [run_of_accepted asked located loaded accepted] at ran
  split at ran
  · next findings found =>
      rw [conclude] at ran
      split at ran
      · cases ran
        rw [completion]
        dsimp only
        split <;> decide
      · cases ran
  · cases ran

theorem followsContract
    (decided : ∀ fault, Settings.load surroundings.files root = .error fault →
      fault.IsInContents)
    (within : Checking.StaysWithin parse surroundings.files) :
    FollowsContract parse surroundings words arguments root := by
  have badSettings fault (loaded : Settings.load surroundings.files root = .error fault) :=
    @run_of_fault parse _ _ _ _ asked located _ loaded (decided fault loaded)
  refine ⟨⟨?_, ?_⟩, badSettings, ?_, ?_⟩
  · rintro ⟨outcome, ran, status⟩
    by_contra neither
    rw [not_or] at neither
    cases loaded : Settings.load surroundings.files root with
    | error fault => exact neither.1 ⟨fault, loaded⟩
    | ok settings => exact status_of_accepted asked located loaded neither.2 ran status
  · rintro (⟨fault, loaded⟩ | bad)
    · rcases badSettings fault loaded with ⟨outcome, ran, refused⟩
      exact ⟨outcome, ran, refused.status⟩
    · rcases rejected?_of_hasBadName bad with ⟨name, rejected⟩
      cases loaded : Settings.load surroundings.files root with
      | error fault =>
          rcases badSettings fault loaded with ⟨outcome, ran, refused⟩
          exact ⟨outcome, ran, refused.status⟩
      | ok settings =>
          rcases @run_of_badName parse _ _ _ _ _ asked located _ loaded rejected with
            ⟨outcome, ran, refused⟩
          exact ⟨outcome, ran, refused.status⟩
  · intro settings name loaded rejected
    exact run_of_badName asked located loaded rejected
  · intro settings findings loaded accepted found
    rcases exists_output (within.overflows_eq_nil found) arguments.format with ⟨output, rendered⟩
    refine ⟨_, ?_, reports_completion root rendered⟩
    rw [run_of_accepted asked located loaded accepted, found]
    simp only [conclude, rendered]

end Contract

/-! ## Two runs -/

/-- What a run shows to other programs. -/
def shown (outcome : Outcome) : Nat × String := (outcome.status, outcome.output)

/-- Two checks of a folder with the same names agree in what is looked at, if they agree in it
whenever they are refused and whenever they are carried out. -/
theorem map_check_congr {α : Type} {view : Outcome → α} {arguments other : Arguments}
    (sameRoot : other.root = arguments.root) (sameNames : other.callbacks = arguments.callbacks)
    (refused : ∀ root lines,
      view (refusal other root lines) = view (refusal arguments root lines))
    (carriedOut : ∀ root settings findings,
      Checking.checkFolder parse surroundings.files settings root = .ok findings →
      (conclude other root findings).map view = (conclude arguments root findings).map view) :
    (check parse surroundings other).map view = (check parse surroundings arguments).map view := by
  rw [check_eq, check_eq, sameRoot, sameNames]
  cases rootOf surroundings arguments.root with
  | error breakdown => rfl
  | ok root =>
      dsimp only
      cases settingsFor surroundings.files root arguments.callbacks with
      | error breakdown => rfl
      | ok result =>
          cases result with
          | error lines => exact congrArg Except.ok (refused root lines)
          | ok settings =>
              dsimp only
              cases found : Checking.checkFolder parse surroundings.files settings root with
              | error fault => rfl
              | ok findings => exact carriedOut root settings findings found

/-- Showing all notes changes neither the status nor the report. -/
theorem shown_verbose (parse : List UInt8 → Script) (surroundings : Surroundings)
    (arguments : Arguments) (verbose : Bool) :
    (check parse surroundings { arguments with verbose }).map shown =
      (check parse surroundings arguments).map shown := by
  apply map_check_congr
  · rfl
  · rfl
  · intro root lines
    rfl
  · intro root settings findings _
    simp only [conclude]
    cases render arguments.format findings.diagnostics <;> rfl

/-- The format does not change the status, nor whether there is an outcome. -/
theorem status_format (within : Checking.StaysWithin parse surroundings.files)
    (arguments : Arguments) (format : Format) :
    (check parse surroundings { arguments with format }).map Outcome.status =
      (check parse surroundings arguments).map Outcome.status := by
  apply map_check_congr
  · rfl
  · rfl
  · intro root lines
    rfl
  · intro root settings findings found
    have fits := within.overflows_eq_nil found
    rcases exists_output fits format with ⟨output, rendered⟩
    rcases exists_output fits arguments.format with ⟨outputToo, renderedToo⟩
    simp only [conclude, rendered, renderedToo]
    rfl

/-! ## Names in the settings -/

/-- A folder has settings with other names in another tree.  The trees differ at some ways, and
at their ends there is no script and no ignore file. -/
structure Renames (files other : FileTree) (ways : List String → Prop) (root : Location)
    (settings : Settings) (names : List String) : Prop where
  proper : files.IsProper
  properToo : other.IsProper
  loaded : Settings.load files root = .ok settings
  loadedToo : Settings.load other root =
    .ok { settings with options := { names := names.eraseDups } }
  differ : files.DifferIn ways other
  immaterial : ∀ way name, ways way → way.getLast? = some name → Discovery.matters name = false

/-- The names in a settings file are accepted. -/
theorem isReadable_of_load (loaded : Settings.load files root = .ok settings) :
    settings.options.IsReadable := by
  rw [Settings.load] at loaded
  split at loaded
  · cases loaded
    exact Options.isReadable_default
  · split at loaded
    · cases loaded
    · unfold Settings.ofBytes at loaded
      split at loaded
      · cases loaded
      · split at loaded
        · cases loaded
        · split at loaded
          · next accepted =>
              cases loaded
              exact Settings.isReadable_of_read accepted
          · cases loaded

/-- Names from the command line do what they do in the settings. -/
theorem check_of_renames {other : FileTree} {ways : List String → Prop} {names : List String}
    (located : rootOf surroundings arguments.root = .ok root)
    (given : arguments.callbacks = some names)
    (renames : Renames surroundings.files other ways root settings names)
    (apart : settings.nestedIgnoring = false →
      ¬ Discovery.LinksInto surroundings.files root ways ∧
        ¬ Discovery.LinksInto other root ways) :
    check parse { surroundings with files := other } { arguments with callbacks := none } =
      check parse surroundings arguments := by
  -- The names are good, since the settings of the other tree were accepted with them.
  have accepted : ¬ arguments.HasBadName := by
    rintro ⟨others, givenToo, name, member, notAccepted⟩
    rw [given] at givenToo
    cases givenToo
    have acceptable := (isReadable_of_load renames.loadedToo).acceptable name (by simpa)
    rw [CallbackName.isAccepted_iff.mpr acceptable] at notAccepted
    cases notAccepted
  -- Both trees have the same folders and links, so the same folder is checked.
  have locatedToo : rootOf { surroundings with files := other } arguments.root = .ok root := by
    rw [rootOf] at located ⊢
    simp only [renames.differ.resolve_eq]
    exact located
  have alone : (settings.withNames arguments.callbacks).nestedIgnoring = false →
      surroundings.files.SameFile other (root.below [IgnoreFile.fileName]) := by
    rw [given]
    intro single
    exact Discovery.sameFile_of_not_linksInto renames.differ renames.immaterial
      (apart single).1 (apart single).2
  have same := @Checking.checkFolder_eq_of_differ parse _ _ _ _ renames.differ renames.proper
    renames.immaterial renames.properToo (settings.withNames arguments.callbacks) alone
  rw [check_eq, check_eq, located, locatedToo]
  simp only [settingsFor_of_settings renames.loaded, settingsFor_of_settings renames.loadedToo,
    rejected?_of_accepted accepted]
  rw [← same, given]
  rfl

/-- A check keeps its contract, with any parser that stays within what can be read.  Its words
are read as they are usually written.  Neither those for the notes nor those for the format
change its status, and the former do not change the report.  Names from the command line do what
they do in the settings, unless the ignore file of the folder is a link to the settings. -/
theorem run_followsContract (parse : List UInt8 → Script) (surroundings : Surroundings)
    (words : List String) (arguments : Arguments) (root : Location)
    (asked : Arguments.read words = .check arguments)
    (located : rootOf surroundings arguments.root = .ok root)
    (decided : ∀ fault, Settings.load surroundings.files root = .error fault →
      fault.IsInContents)
    (within : Checking.StaysWithin parse surroundings.files) :
    (∀ invocation : Invocation, invocation.IsPlain →
        Arguments.read invocation.words = .check invocation.arguments) ∧
      FollowsContract parse surroundings words arguments root ∧
      (∀ others verbose, Arguments.read others = .check { arguments with verbose } →
        (run parse surroundings others).map shown = (run parse surroundings words).map shown) ∧
      (∀ others format, Arguments.read others = .check { arguments with format } →
        (run parse surroundings others).map Outcome.status =
          (run parse surroundings words).map Outcome.status) ∧
      ∀ others other ways names settings, arguments.callbacks = some names →
        Renames surroundings.files other ways root settings names →
        (settings.nestedIgnoring = false →
          ¬ Discovery.LinksInto surroundings.files root ways ∧
            ¬ Discovery.LinksInto other root ways) →
        Arguments.read others = .check { arguments with callbacks := none } →
        run parse { surroundings with files := other } others = run parse surroundings words := by
  refine ⟨Arguments.read_invocation, followsContract asked located decided within, ?_, ?_, ?_⟩
  · intro others verbose askedToo
    rw [run_eq_check asked, run_eq_check askedToo]
    exact shown_verbose parse surroundings arguments verbose
  · intro others format askedToo
    rw [run_eq_check asked, run_eq_check askedToo]
    exact status_format within arguments format
  · intro others other ways names settings given renames apart askedToo
    rw [run_eq_check asked, run_eq_check askedToo]
    exact check_of_renames located given renames apart

/-- A settings file is neither a script nor an ignore file. -/
theorem matters_settingsFile (way : List String) (name : String)
    (here : way = [Settings.fileName]) (last : way.getLast? = some name) :
    Discovery.matters name = false := by
  rw [here] at last
  cases last
  decide +kernel

def configured (settings : String) : FileTree :=
  .node { name := "" }
    ([Checking.callingScript] ++
      .node { name := "callback-return.toml", content := .file settings.toUTF8.toList } [] :: [])

/-- The name that the script calls, from the command line and from the settings. -/
theorem run_followsContract_configured :
    let files := configured "[rules.callback-return]\nnames = [\"done\"]\n"
    let other := configured "[rules.callback-return]\nnames = [\"callback\"]\n"
    let surroundings : Surroundings := { files, current := {}, home := {} }
    let arguments : Arguments := { callbacks := some ["callback"] }
    Arguments.read ["check", "--callbacks", "callback"] = .check arguments ∧
      rootOf surroundings arguments.root = .ok {} ∧
      Settings.load files {} = .ok { options := { names := ["done"] } } ∧
      Settings.load other {} = .ok { options := { names := ["callback"] } } ∧
      Checking.StaysWithin Script.parse files ∧
      FollowsContract Script.parse surroundings ["check", "--callbacks", "callback"] arguments
        {} ∧
      (run Script.parse surroundings ["check", "--callbacks", "callback", "-v"]).map shown =
        (run Script.parse surroundings ["check", "--callbacks", "callback"]).map shown ∧
      run Script.parse { surroundings with files := other } ["check"] =
        run Script.parse surroundings ["check", "--callbacks", "callback"] := by
  intro files other surroundings arguments
  have asked : Arguments.read ["check", "--callbacks", "callback"] = .check arguments :=
    Arguments.read_invocation { parts := [.callbacks "callback" []] } (by decide)
  have located : rootOf surroundings arguments.root = .ok {} := by decide +kernel
  have loaded : Settings.load files {} = .ok { options := { names := ["done"] } } := by
    decide +kernel
  have loadedToo : Settings.load other {} = .ok { options := { names := ["callback"] } } := by
    decide +kernel
  have decided fault (failed : Settings.load files {} = .error fault) : fault.IsInContents := by
    rw [loaded] at failed
    cases failed
  have within : Checking.StaysWithin Script.parse files :=
    Checking.staysWithin_of_readable (by decide +kernel)
  have proper : files.IsProper := by decide
  have properToo : other.IsProper := by decide
  have renames : Renames files other (· = ["callback-return.toml"]) {}
      { options := { names := ["done"] } } ["callback"] :=
    { proper, properToo, loaded, loadedToo
      immaterial := matters_settingsFile
      differ := FileTree.differIn_child proper rfl properToo rfl rfl }
  have apart : ¬ Discovery.LinksInto files {} (· = ["callback-return.toml"]) ∧
      ¬ Discovery.LinksInto other {} (· = ["callback-return.toml"]) := by
    constructor <;>
      · rintro ⟨_, way, rfl, led⟩
        revert led
        decide +kernel
  rcases run_followsContract Script.parse surroundings ["check", "--callbacks", "callback"]
    arguments {} asked located decided within with ⟨_, contract, verbose, _, override⟩
  exact ⟨asked, located, loaded, loadedToo, within, contract,
    verbose ["check", "--callbacks", "callback", "-v"] true
      (Arguments.read_invocation { parts := [.callbacks "callback" [], .verbose] } (by decide)),
    override ["check"] other _ ["callback"] _ rfl renames (fun _ => apart)
      (Arguments.read_invocation {} (by decide))⟩

/-- A folder whose ignore file is a link to its settings file.  As a rule, the second line is
about scripts whose names have one letter of the callback in a certain place. -/
def linkedSettings (name : String) : FileTree :=
  let script := "function f(){callback();x()}".toUTF8.toList
  let settings := ("[rules.callback-return]\nnames=[\"" ++ name ++ "\"]#.js\n").toUTF8.toList
  .node { name := "" }
    ([.node { name := ".gitignore", content := .link "callback-return.toml" } []] ++
      .node { name := "callback-return.toml", content := .file settings } [] ::
      [.node { name := "names=c#.js", content := .file script } []])

/-- With a name from the command line, the call is reported.  With this name in the settings,
the script is not even found. -/
theorem run_linkedSettings :
    let files := linkedSettings "done"
    let other := linkedSettings "callback"
    let surroundings : Surroundings := { files, current := {}, home := {} }
    Arguments.read ["check", "--callbacks", "callback"] =
        .check { callbacks := some ["callback"] } ∧
      Arguments.read ["check"] = .check {} ∧
      Renames files other (· = ["callback-return.toml"]) {} { options := { names := ["done"] } }
        ["callback"] ∧
      run Script.parse surroundings ["check", "--callbacks", "callback"] =
        .ok { status := 1
              output := "names=c#.js:1:14: Expected return with your callback function. " ++
                "[callback-return]\n" } ∧
      run Script.parse { surroundings with files := other } ["check"] = .ok { status := 0 } := by
  intro files other surroundings
  have asked := Arguments.read_invocation { parts := [.callbacks "callback" []] } (by decide)
  have askedToo := Arguments.read_invocation {} (by decide)
  have proper : files.IsProper := by decide
  have properToo : other.IsProper := by decide
  have loaded : Settings.load files {} = .ok { options := { names := ["done"] } } := by
    decide +kernel
  have loadedToo : Settings.load other {} = .ok { options := { names := ["callback"] } } := by
    decide +kernel
  have accepted : ¬ Arguments.HasBadName { callbacks := some ["callback"] } := by
    rintro ⟨_, given, name, member, notAccepted⟩
    cases given
    rw [List.mem_singleton.mp member] at notAccepted
    revert notAccepted
    decide
  have acceptedToo : ¬ Arguments.HasBadName {} := by
    rintro ⟨_, given, _⟩
    cases given
  have differ : files.DifferIn (· = ["callback-return.toml"]) other :=
    FileTree.differIn_child proper rfl properToo rfl rfl
  have discovered : Discovery.find files {} (Checking.selectionOf {}) false =
      .ok [{ names := ["names=c#.js"], bytes := Checking.callingFile.bytes }] := by
    apply @Discovery.find_of_ordered _ _ (Checking.selectionOf {}) false _
      [{ names := ["names=c#.js"], bytes := Checking.callingFile.bytes }]
      [{ folder := [], rules := [{ written := "(^|[/])[rules.callback-return]$".toList },
        { written := "(^|[/])names=[\"done\"]\\#\\.js$".toList }] }]
      (Discovery.filesBelow_of_ordered (by decide +kernel))
    · decide +kernel
    · decide +kernel
    · decide +kernel
  have discoveredToo : Discovery.find other {} (Checking.selectionOf {}) false = .ok [] := by
    apply @Discovery.find_of_ordered _ _ (Checking.selectionOf {}) false _ []
      [{ folder := [], rules := [{ written := "(^|[/])[rules.callback-return]$".toList },
        { written := "(^|[/])names=[\"callback\"]\\#\\.js$".toList }] }]
      (Discovery.filesBelow_of_ordered (by decide +kernel))
    · decide +kernel
    · decide +kernel
    · decide +kernel
  have ran := @run_of_found Script.parse surroundings _ {} _ _ asked (by decide +kernel) loaded
    accepted proper _ discovered
  have ranToo := @run_of_found Script.parse { surroundings with files := other } _ {} _ _
    askedToo (by decide +kernel) loadedToo acceptedToo properToo _ discoveredToo
  exact ⟨asked, askedToo,
    ⟨proper, properToo, loaded, loadedToo, differ, matters_settingsFile⟩,
    ran.trans (by decide +kernel), ranToo.trans (by decide +kernel)⟩

end Command

end CallbackLint
