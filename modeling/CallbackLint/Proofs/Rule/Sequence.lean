import CallbackLint.Proofs.Rule.Decision

namespace CallbackLint

open Rose

/-!
# One inspection, several trees

An inspection may be taken through one tree after the other.  Each run gives back
the frames that it found, so that every run begins outside all functions if the first
one does; and what a run records depends on the tree and on these frames only.  So
what is found in several trees is what fresh checks of each find, put together.
-/

/-- The tree below a node of some store. -/
structure Subject where
  store : Store
  root : Nat

namespace Subject

/-- The links below the root make up a tree. -/
def IsTree (subject : Subject) : Prop :=
  ∃ shape, subject.store.Holds shape ∧ shape.value = subject.root

/-- What a fresh check finds. -/
def check (subject : Subject) (names : List String) (path : Option String) : Findings :=
  subject.store.check names path subject.root

end Subject

namespace Inspection

/-- Take an inspection through several trees, one after the other. -/
def runEach (inspection : Inspection) (subjects : List Subject) : Inspection :=
  subjects.foldl (fun inspection subject => inspection.run subject.store subject.root) inspection

/-- The same inspection after it has come to some more findings. -/
def extend (inspection : Inspection) (findings : Findings) : Inspection :=
  { inspection with
    diagnostics := inspection.diagnostics ++ findings.diagnostics
    notes := inspection.notes ++ findings.notes }

/-- Outside every function, a run adds what a fresh check finds and nothing else. -/
theorem run_eq_extend {inspection : Inspection} {subject : Subject} (isTree : subject.IsTree)
    (outside : inspection.scopes = {}) :
    inspection.run subject.store subject.root =
      inspection.extend (subject.check inspection.names inspection.path) := by
  rcases isTree with ⟨shape, holds, root⟩
  have sightings : subject.store.sightingAt inspection.scopes = subject.store.sightingAt {} := by
    rw [outside]
  rw [Subject.check, ← root, run_eq holds, Store.check_eq holds, sightings]
  rfl

/-- Several runs add the findings of several checks. -/
theorem runEach_eq_extend {inspection : Inspection} {subjects : List Subject}
    (trees : ∀ subject ∈ subjects, subject.IsTree) (outside : inspection.scopes = {}) :
    inspection.runEach subjects = inspection.extend
      { diagnostics := subjects.flatMap fun subject =>
          (subject.check inspection.names inspection.path).diagnostics
        notes := subjects.flatMap fun subject =>
          (subject.check inspection.names inspection.path).notes } := by
  induction subjects generalizing inspection with
  | nil => simp only [runEach, extend, List.foldl_nil, List.flatMap_nil, List.append_nil]
  | cons subject rest inductionHypothesis =>
      have first := run_eq_extend (trees subject List.mem_cons_self) outside
      have later := @inductionHypothesis
        (inspection.extend (subject.check inspection.names inspection.path))
        (fun other member => trees other (List.mem_cons_of_mem _ member)) outside
      rw [runEach, List.foldl_cons, first]
      apply later.trans
      simp only [extend, List.flatMap_cons, List.append_assoc]

/-- What an inspection that starts fresh has found in some trees.  It is taken through them without
being reset, and yet each tree is judged as if it were the only one. -/
structure RunsApart (names : List String) (path : Option String) (subjects : List Subject) :
    Prop where
  /-- The diagnostics are those of the single checks, tree after tree. -/
  diagnostics : (runEach { names, path } subjects).diagnostics =
    subjects.flatMap fun subject => (subject.check names path).diagnostics
  /-- So are the notes, which tell how every call was classified. -/
  notes : (runEach { names, path } subjects).notes =
    subjects.flatMap fun subject => (subject.check names path).notes
  /-- No function is left open. -/
  outside : (runEach { names, path } subjects).scopes = {}
  /-- Whatever came before, a further tree adds the findings of a check of its own. -/
  further : ∀ subject : Subject, subject.IsTree →
    (runEach { names, path } subjects).run subject.store subject.root =
      (runEach { names, path } subjects).extend (subject.check names path)

/-- After any number of runs, nothing but the findings of the single checks has come
together, and the next run begins as the first one did. -/
theorem runs_apart (names : List String) (path : Option String) (subjects : List Subject)
    (trees : ∀ subject ∈ subjects, subject.IsTree) (count : Nat) :
    RunsApart names path (subjects.take count) := by
  have among : ∀ subject ∈ subjects.take count, subject.IsTree := fun subject member =>
    trees subject (List.mem_of_mem_take member)
  have state := @runEach_eq_extend { names, path } _ among rfl
  constructor
  · rw [state]
    exact List.nil_append _
  · rw [state]
    exact List.nil_append _
  · rw [state]
    rfl
  · intro subject isTree
    rw [state]
    exact run_eq_extend isTree rfl

/-- A tree with a violation, another one, and the first one again. -/
def repeatedSubjects : List Subject :=
  [{ store := Store.distantBody, root := 0 }, { store := nestedFunctions, root := 0 },
    { store := Store.distantBody, root := 0 }]

theorem runs_apart_repeatedSubjects :
    (∀ subject ∈ repeatedSubjects, subject.IsTree) ∧
      RunsApart ["callback"] none (repeatedSubjects.take 3) := by
  have distant : Subject.IsTree { store := Store.distantBody, root := 0 } :=
    ⟨Store.distantNames, by decide, rfl⟩
  have nested : Subject.IsTree { store := nestedFunctions, root := 0 } :=
    ⟨nestedNames, by decide, rfl⟩
  have trees : ∀ subject ∈ repeatedSubjects, subject.IsTree := by
    intro subject member
    simp only [repeatedSubjects, List.mem_cons, List.not_mem_nil, or_false] at member
    rcases member with same | same | same
    · exact same ▸ distant
    · exact same ▸ nested
    · exact same ▸ distant
  exact ⟨trees, runs_apart ["callback"] none repeatedSubjects trees 3⟩

end Inspection

end CallbackLint
