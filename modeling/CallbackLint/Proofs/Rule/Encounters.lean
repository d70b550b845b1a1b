import CallbackLint.Proofs.Rose.Traversal
import CallbackLint.Proofs.Rule.Sightings
import CallbackLint.Proofs.Settings.Names
import Mathlib.Data.List.Perm.Basic

namespace CallbackLint

open Rose

/-!
# Names as a set

A traversal comes to the same calls whatever names it looks for, and to each of them with
the same frames: entering a function does not ask for names, and looking at a call changes
no frame.  The names only choose among these encounters.  So a check depends on the set of
the names, more names find more, and names without each other find apart what they find
together.

Nothing here asks for a tree.  The encounters are those of the traversal, also where the
links of a store contradict each other.
-/

/-- A call of an identifier to which a traversal comes. -/
structure Encounter where
  node : Nat
  sighting : Sighting

namespace Encounter

def isAmong (names : List String) (encounter : Encounter) : Bool :=
  names.contains encounter.sighting.callee

def isViolation (encounter : Encounter) : Bool :=
  decide (encounter.sighting.placement.verdict = .violating)

def diagnostic (path : Option String) (encounter : Encounter) : Diagnostic :=
  .missingReturn path encounter.sighting.position

def note (encounter : Encounter) : Note :=
  .classified encounter.sighting.callee encounter.sighting.position encounter.sighting.placement

theorem isAmong_iff {names : List String} {encounter : Encounter} :
    encounter.isAmong names = true ↔ encounter.sighting.callee ∈ names :=
  List.contains_iff_mem

/-- Names with the same elements choose the same calls. -/
theorem isAmong_congr {names others : List String} (same : ∀ name, name ∈ names ↔ name ∈ others) :
    isAmong names = isAmong others := by
  funext encounter
  rw [Bool.eq_iff_iff, isAmong_iff, isAmong_iff]
  exact same _

end Encounter

/-- The note is about a call of one of the names. -/
def Note.isAbout (names : List String) : Note → Bool
  | .classified callee _ _ => names.contains callee
  | _ => false

namespace Store

variable (store : Store)

/-- The calls to which the rest of a traversal comes, with the frames of the moment. -/
def encountersFrom (scopes : Scopes) : List (Visit Nat) → List Encounter
  | [] => []
  | .enter name :: steps =>
    (store.sighting? scopes.current? name).toList.map (Encounter.mk name) ++
      encountersFrom
        (if store.kind? name = some .function then scopes.enter name else scopes) steps
  | .leave name :: steps =>
    encountersFrom (if store.kind? name = some .function then scopes.leave else scopes) steps

/-- The calls to which the traversal from a root comes, in its order. -/
def encounters (root : Nat) : List Encounter :=
  store.encountersFrom {} (store.outline root).visits

/-- Those of the encounters that are calls of the names. -/
def noted (names : List String) (root : Nat) : List Encounter :=
  (store.encounters root).filter (Encounter.isAmong names)

/-- Those of them whose place is not accepted. -/
def reported (names : List String) (root : Nat) : List Encounter :=
  (store.noted names root).filter Encounter.isViolation

end Store

/-! ## One run -/

/-- Some steps of a traversal record the calls to which they come. -/
theorem Inspection.foldl_step_eq (store : Store) (steps : List (Visit Nat))
    (inspection : Inspection) :
    ∃ scopes, steps.foldl (step store) inspection =
      { inspection.record
          ((store.encountersFrom inspection.scopes steps).map Encounter.sighting) with scopes } := by
  induction steps generalizing inspection with
  | nil => exact ⟨inspection.scopes, by simp [Store.encountersFrom]⟩
  | cons visit steps inductionHypothesis =>
      rcases inductionHypothesis (step store inspection visit) with ⟨scopes, later⟩
      refine ⟨scopes, ?_⟩
      rw [List.foldl_cons, later]
      cases visit with
      | enter name =>
          simp [step, enter_eq, scopesAfterEnter, Store.encountersFrom, record, Function.comp_def]
      | leave name =>
          simp [step, leave_eq, Store.encountersFrom, record]

theorem Encounter.filterMap_report? (names : List String) (path : Option String)
    (encounters : List Encounter) :
    (encounters.map Encounter.sighting).filterMap (Sighting.report? names path) =
      ((encounters.filter (isAmong names)).filter isViolation).map (diagnostic path) := by
  induction encounters with
  | nil => rfl
  | cons encounter rest inductionHypothesis =>
      cases among : encounter.isAmong names <;> cases violation : encounter.isViolation <;>
        simp_all [Sighting.report?, isAmong, isViolation, diagnostic]

theorem Encounter.filterMap_note? (names : List String) (encounters : List Encounter) :
    (encounters.map Encounter.sighting).filterMap (Sighting.note? names) =
      (encounters.filter (isAmong names)).map note := by
  induction encounters with
  | nil => rfl
  | cons encounter rest inductionHypothesis =>
      cases among : encounter.isAmong names <;>
        simp_all [Sighting.note?, isAmong, note]

/-- A check finds the calls of its names among the encounters of the traversal. -/
theorem Store.check_eq_encounters (store : Store) (names : List String) (path : Option String)
    (root : Nat) :
    store.check names path root =
      { diagnostics := (store.reported names root).map (Encounter.diagnostic path)
        notes := (store.noted names root).map Encounter.note } := by
  rcases Inspection.foldl_step_eq store (store.outline root).visits { names, path } with
    ⟨scopes, found⟩
  unfold check Inspection.run
  rw [guide_eq_foldl, found]
  simp only [Inspection.record, List.nil_append, Encounter.filterMap_report?,
    Encounter.filterMap_note?]
  rfl

/-! ## Preorder -/

theorem Store.node_encountersFrom_sublist (store : Store) (scopes : Scopes)
    (steps : List (Visit Nat)) :
    ((store.encountersFrom scopes steps).map Encounter.node).Sublist
      (steps.filterMap Visit.entered?) := by
  induction steps generalizing scopes with
  | nil => exact List.Sublist.slnil
  | cons visit steps inductionHypothesis =>
      cases visit with
      | enter name =>
          rw [encountersFrom, List.map_append, List.filterMap_cons]
          cases store.sighting? scopes.current? name with
          | none => exact (inductionHypothesis _).cons name
          | some sighting => exact (inductionHypothesis _).cons_cons name
      | leave name => exact inductionHypothesis _

/-- The encounters come in preorder. -/
theorem Store.node_encounters_sublist (store : Store) (root : Nat) :
    ((store.encounters root).map Encounter.node).Sublist (store.outline root).preorder := by
  rw [← filterMap_entered?_visits]
  exact store.node_encountersFrom_sublist {} _

/-! ## Sets of names -/

namespace Store

variable {store : Store} {names others : List String} {root : Nat} {path : Option String}

theorem noted_congr (same : ∀ name, name ∈ names ↔ name ∈ others) :
    store.noted names root = store.noted others root := by
  rw [noted, noted, Encounter.isAmong_congr same]

theorem reported_congr (same : ∀ name, name ∈ names ↔ name ∈ others) :
    store.reported names root = store.reported others root := by
  rw [reported, reported, noted_congr same]

/-- Fewer names choose among what more names choose. -/
theorem noted_of_subset (subset : ∀ name ∈ names, name ∈ others) :
    store.noted names root = (store.noted others root).filter (Encounter.isAmong names) := by
  unfold noted
  rw [List.filter_filter]
  apply List.filter_congr
  intro encounter _
  rw [Bool.eq_iff_iff, Bool.and_eq_true, Encounter.isAmong_iff, Encounter.isAmong_iff]
  exact ⟨fun member => ⟨member, subset _ member⟩, And.left⟩

theorem reported_of_subset (subset : ∀ name ∈ names, name ∈ others) :
    store.reported names root =
      (store.reported others root).filter (Encounter.isAmong names) := by
  unfold reported
  rw [noted_of_subset subset, List.filter_comm]

/-- The notes about some names are the notes of a check of these names. -/
theorem filter_isAbout_check (subset : ∀ name ∈ names, name ∈ others) :
    (store.check others path root).notes.filter (Note.isAbout names) =
      (store.check names path root).notes := by
  rw [check_eq_encounters, check_eq_encounters, noted_of_subset subset, List.filter_map]
  rfl

theorem check_congr (same : ∀ name, name ∈ names ↔ name ∈ others) :
    store.check names path root = store.check others path root := by
  rw [check_eq_encounters, check_eq_encounters, reported_congr same, noted_congr same]

theorem noted_nil : store.noted [] root = [] :=
  List.filter_eq_nil_iff.mpr fun _ _ => by simp [Encounter.isAmong]

/-- A call of names apart from each other is one of either but not of both. -/
theorem isAmong_eq_not_of_apart (apart : ∀ name ∈ names, name ∉ others) {call : Encounter}
    (listed : call ∈ store.reported (names ++ others) root) :
    call.isAmong names = !call.isAmong others := by
  have member : call.sighting.callee ∈ names ++ others :=
    Encounter.isAmong_iff.mp (List.of_mem_filter (List.mem_of_mem_filter listed))
  rw [Bool.eq_iff_iff, Bool.not_eq_true', ← Bool.not_eq_true, Encounter.isAmong_iff,
    Encounter.isAmong_iff]
  constructor
  · exact apart _
  · exact (List.mem_append.mp member).resolve_right

/-- Names apart report calls apart. -/
theorem reported_append_perm (apart : ∀ name ∈ names, name ∉ others) :
    (store.reported (names ++ others) root).Perm
      (store.reported names root ++ store.reported others root) := by
  have first : store.reported names root =
      (store.reported (names ++ others) root).filter (Encounter.isAmong names) :=
    reported_of_subset fun _ => List.mem_append_left others
  have second : store.reported others root =
      (store.reported (names ++ others) root).filter fun call => !call.isAmong names := by
    rw [reported_of_subset fun _ => List.mem_append_right names]
    apply List.filter_congr
    intro call listed
    rw [isAmong_eq_not_of_apart apart listed, Bool.not_not]
  rw [first, second]
  exact (List.filter_append_perm _ _).symm

/-- What two accepted lists of names have to do with each other in checks of one tree.  Names act as
a set, and one by one: no name changes what is reported for another. -/
structure NamesAct (store : Store) (root : Nat) (path : Option String) (few many : List String)
    (first second : Options) : Prop where
  /-- A check finds the calls of its names among the encounters, which are the same for all
  names. -/
  finds : ∀ names, store.check names path root =
    { diagnostics := (store.reported names root).map (Encounter.diagnostic path)
      notes := (store.noted names root).map Encounter.note }
  inPreorder :
    ((store.encounters root).map Encounter.node).Sublist (store.outline root).preorder
  /-- Order and repetition do not matter. -/
  asSet : (∀ name, name ∈ few ↔ name ∈ many) →
    store.check first.names path root = store.check second.names path root
  /-- Fewer names find exactly those of the calls that are theirs. -/
  monotone : (∀ name ∈ few, name ∈ many) →
    store.reported first.names root =
        (store.reported second.names root).filter (Encounter.isAmong few) ∧
      (store.check first.names path root).diagnostics.Sublist
        (store.check second.names path root).diagnostics ∧
      (store.check first.names path root).notes =
        (store.check second.names path root).notes.filter (Note.isAbout few)
  /-- Names apart report their calls apart, each list in the order of both together. -/
  together : (∀ name ∈ few, name ∉ many) →
    ∃ both, Options.read (.table [("names", .list ((few ++ many).map .text))]) = .ok both ∧
      (store.reported both.names root).Perm
        (store.reported first.names root ++ store.reported second.names root) ∧
      (store.reported both.names root).filter (Encounter.isAmong few) =
        store.reported first.names root ∧
      (store.reported both.names root).filter (Encounter.isAmong many) =
        store.reported second.names root ∧
      ∀ call ∈ store.reported both.names root, call.isAmong few = !call.isAmong many
  nothing : few = [] → store.check first.names path root = {}
  /-- What is noted about a name is what a check of that name alone notes. -/
  alone : ∀ name ∈ few, (store.check first.names path root).notes.filter (Note.isAbout [name]) =
    (store.check [name] path root).notes

theorem names_act (store : Store) (root : Nat) (path : Option String) (few many : List String)
    (first second : Options)
    (accepted : Options.read (.table [("names", .list (few.map .text))]) = .ok first)
    (acceptedToo : Options.read (.table [("names", .list (many.map .text))]) = .ok second) :
    NamesAct store root path few many first second := by
  rcases Options.names_of_read accepted with ⟨noneOfFew, firstEq⟩
  rcases Options.names_of_read acceptedToo with ⟨noneOfMany, secondEq⟩
  have ofFirst name : name ∈ first.names ↔ name ∈ few := by rw [firstEq, List.mem_eraseDups]
  have ofSecond name : name ∈ second.names ↔ name ∈ many := by
    rw [secondEq, List.mem_eraseDups]
  refine ⟨fun names => store.check_eq_encounters names path root,
    store.node_encounters_sublist root, ?_, ?_, ?_, ?_, ?_⟩
  all_goals simp only [check_congr ofFirst, check_congr ofSecond, reported_congr ofFirst,
    reported_congr ofSecond]
  · exact check_congr
  · intro subset
    refine ⟨reported_of_subset subset, ?_, (filter_isAbout_check subset).symm⟩
    rw [check_eq_encounters, check_eq_encounters, reported_of_subset subset]
    exact List.filter_sublist.map _
  · intro apart
    have noneOfBoth : CallbackName.rejected? (few ++ many) = none := by
      rw [CallbackName.rejected?_eq_none_iff] at noneOfFew noneOfMany ⊢
      intro name member
      exact (List.mem_append.mp member).elim (noneOfFew name) (noneOfMany name)
    refine ⟨{ names := (few ++ many).eraseDups }, ?_, ?_⟩
    · rw [Options.read_texts, noneOfBoth]
    have ofBoth name : name ∈ (few ++ many).eraseDups ↔ name ∈ few ++ many := List.mem_eraseDups
    simp only [reported_congr ofBoth]
    refine ⟨reported_append_perm apart,
      (reported_of_subset fun _ => List.mem_append_left many).symm,
      (reported_of_subset fun _ => List.mem_append_right few).symm, ?_⟩
    exact fun call listed => isAmong_eq_not_of_apart apart listed
  · rintro rfl
    rw [check_eq_encounters, reported, noted_nil]
    rfl
  · intro name member
    apply filter_isAbout_check
    intro other same
    exact List.mem_singleton.mp same ▸ member

/-- A function that calls two identifiers in turn, one statement a line. -/
def callsInTurn : Store :=
  let statement (line : Int) (callee : String) : Tree :=
    Tree.plain .expressionStatement ⟨line, 1⟩
      [.node { kind := .call, position := ⟨line, 1⟩, callee := some callee } []]
  .ofTree (.node { kind := .function, position := ⟨1, 1⟩, body := some 0 }
    [Tree.plain .block ⟨1, 1⟩ [statement 2 "next", statement 3 "done", statement 4 "next",
      statement 5 "log"]])

/-- A repeated name, and a list with one more name. -/
theorem names_act_callsInTurn :
    Options.read (.table [("names", .list (["next", "next"].map .text))]) =
        .ok { names := ["next"] } ∧
      Options.read (.table [("names", .list (["done", "next"].map .text))]) =
        .ok { names := ["done", "next"] } ∧
      NamesAct callsInTurn 0 none ["next", "next"] ["done", "next"] { names := ["next"] }
        { names := ["done", "next"] } ∧
      (callsInTurn.check ["next"] none 0).diagnostics.map Diagnostic.line = [2, 4] ∧
      (callsInTurn.check ["done", "next"] none 0).diagnostics.map Diagnostic.line = [2, 3, 4] :=
  ⟨rfl, rfl, names_act callsInTurn 0 none ["next", "next"] ["done", "next"] { names := ["next"] }
    { names := ["done", "next"] } rfl rfl, by decide +kernel, by decide +kernel⟩

end Store

end CallbackLint
