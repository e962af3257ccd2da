import RunLedger.File.Layout
import RunLedger.Parameters.Dictionary
import RunLedger.Proofs.Errors
import RunLedger.Proofs.Output.Write
import RunLedger.Recorder

set_option autoImplicit false

namespace RunLedger

open File Text

namespace Recorder

theorem value_start (r : Recorder) (p : Parameters) :
    (r.start p).value =
      { r with enabled := (p.getFlag Parameters.enabledKey).value.getD false, latest := [] } := rfl

@[simp] theorem errors_start (r : Recorder) (p : Parameters) : (r.start p).errors = [] := by
  simp [start]

@[simp] theorem errors_write (r : Recorder) (t : Tree) (p : Parameters) :
    (r.write t p).errors = [] := by
  unfold write
  split <;> simp

theorem write_ok {r : Recorder} {t t' : Tree} {p : Parameters} {path : String}
    (success : (r.write t p).value = (.ok path, t')) :
    ∃ cwd, r.base t = .ok cwd ∧ (Output.write t cwd p r.ids).value = (.ok path, t') := by
  unfold write at success
  split at success
  · cases success
  · rename_i cwd based
    exact ⟨cwd, based, success⟩

/-- Whether the ids are written or not, nothing is lost. -/
theorem grows_write (r : Recorder) (t : Tree) (p : Parameters) :
    t.Grows (r.write t p).value.2 := by
  unfold write
  split
  · exact .refl t
  · exact Output.grows_write t _ p r.ids

theorem value_finish (r : Recorder) (t : Tree) (p : Parameters) (enabled : r.enabled = true) :
    (r.finish t p).value = ({ r with latest := [] }, (r.write t p).value.2) := by
  simp only [finish, enabled, ↓reduceIte, Logged.value_bind]
  rcases (r.write t p).value with ⟨e | path, after⟩ <;> rfl

/-- A recorder that is on reports the fault of its write, if there is one, and nothing else. -/
theorem errors_finish (r : Recorder) (t : Tree) (p : Parameters) (enabled : r.enabled = true) :
    (r.finish t p).errors =
      match (r.write t p).value.1 with
      | .error e => [e.chain.render]
      | .ok _ => [] := by
  simp only [finish, enabled, ↓reduceIte, Logged.errors_bind, errors_write, List.nil_append]
  rcases (r.write t p).value with ⟨e | path, after⟩ <;> simp

theorem notifyAll_append (r : Recorder) (t : Tree) (first second : List Hook) :
    r.notifyAll t (first ++ second) =
      r.notifyAll t first >>= fun after => after.1.notifyAll after.2 second := by
  induction first generalizing r t with
  | nil => exact (pure_bind _ _).symm
  | cons h rest ih =>
    simp only [List.cons_append, notifyAll, bind_assoc]
    congr 1
    funext after
    exact ih after.1 after.2

end Recorder

/-- The ids of the tests among some cases, in their order. -/
def recordedIds (cases : List (Identifier × Outcome)) : List String :=
  (cases.filter fun c => c.1.kind = .test ∨ c.1.kind = .containerAndTest).map (·.1.uniqueId)

theorem Identifier.isTest_eq (i : Identifier) :
    i.isTest = decide (i.kind = .test ∨ i.kind = .containerAndTest) := by
  obtain ⟨id, kind⟩ := i
  cases kind <;> rfl

theorem recordedIds_cons (i : Identifier) (o : Outcome) (cases : List (Identifier × Outcome)) :
    recordedIds ((i, o) :: cases) =
      if i.isTest then i.uniqueId :: recordedIds cases else recordedIds cases := by
  rw [i.isTest_eq]
  by_cases test : i.kind = .test ∨ i.kind = .containerAndTest
  · simp [recordedIds, test]
  · simp [recordedIds, test]

/-- Cases as a host announces them. -/
def announced (cases : List (Identifier × Outcome)) : List Hook :=
  cases.map fun (i, o) => .caseFinished i o

/-- A recorder that is on keeps the ids of the tests behind those that it has, and logs nothing. -/
theorem Recorder.notifyAll_announced (cases : List (Identifier × Outcome)) (r : Recorder) (t : Tree)
    (enabled : r.enabled = true) :
    r.notifyAll t (announced cases) =
      pure ({ r with latest := (recordedIds cases).reverse ++ r.latest }, t) := by
  induction cases generalizing r with
  | nil => rfl
  | cons c cases ih =>
    obtain ⟨i, o⟩ := c
    have kept : (r.finishCase i).enabled = true := by
      unfold finishCase
      split <;> exact enabled
    change r.notifyAll t (.caseFinished i o :: announced cases) = _
    rw [notifyAll, notify, pure_bind]
    dsimp only
    rw [ih (r.finishCase i) kept, recordedIds_cons, finishCase]
    by_cases test : i.isTest = true
    · simp [enabled, test]
    · simp [test]

/-- A run: the recorder and the files as it finds them, and what its host announces. -/
structure Run where
  recorder : Recorder
  files : Tree
  atStart : Parameters
  cases : List (Identifier × Outcome)
  atFinish : Parameters

namespace Run

/-- The announcements before the run finishes. -/
def opening (run : Run) : List Hook :=
  .runStarted run.atStart :: announced run.cases

def hooks (run : Run) : List Hook :=
  run.opening ++ [.runFinished run.atFinish]

def Enabled (run : Run) : Prop :=
  (run.atStart.getFlag Parameters.enabledKey).value = some true

instance (run : Run) : Decidable run.Enabled :=
  inferInstanceAs (Decidable (_ = _))

/-- The recorder and the files right before the run finishes. -/
def ready (run : Run) : Recorder × Tree :=
  (run.recorder.notifyAll run.files run.opening).value

/-- What writing the ids comes to when the run finishes. -/
def attempt (run : Run) : Except Output.WriteError String × Tree :=
  (run.ready.1.write run.ready.2 run.atFinish).value

def finished (run : Run) : Logged (Recorder × Tree) :=
  run.recorder.notifyAll run.files run.hooks

/-- Before it finishes, an enabled run has touched no file and recorded the tests' ids. -/
theorem ready_eq (run : Run) (enabled : run.Enabled) :
    run.ready = (⟨true, (recordedIds run.cases).reverse, run.recorder.workingDir⟩, run.files) := by
  have started : (run.recorder.start run.atStart).value = ⟨true, [], run.recorder.workingDir⟩ := by
    rw [Recorder.value_start, enabled]
    rfl
  rw [ready, opening, Recorder.notifyAll, Logged.value_bind]
  change ((run.recorder.start run.atStart).value.notifyAll run.files _).value = _
  rw [started, Recorder.notifyAll_announced _ _ _ rfl, List.append_nil]
  rfl

theorem ids_ready (run : Run) (enabled : run.Enabled) :
    run.ready.1.ids = recordedIds run.cases := by
  rw [run.ready_eq enabled]
  exact List.reverse_reverse _

theorem errors_opening (run : Run) (enabled : run.Enabled) :
    (run.recorder.notifyAll run.files run.opening).errors = [] := by
  have started : (run.recorder.start run.atStart).value.enabled = true := by
    rw [Recorder.value_start, enabled]
    rfl
  rw [opening, Recorder.notifyAll, Logged.errors_bind]
  simp only [Recorder.notify, Logged.errors_bind, Recorder.errors_start, Logged.errors_pure,
    Logged.value_bind, Logged.value_pure, List.nil_append]
  rw [Recorder.notifyAll_announced _ _ _ started, Logged.errors_pure]

theorem finished_eq (run : Run) :
    run.finished = run.recorder.notifyAll run.files run.opening >>= fun before =>
      before.1.finish before.2 run.atFinish := by
  rw [finished, hooks, Recorder.notifyAll_append]
  congr 1
  funext before
  exact bind_pure _

theorem value_finished (run : Run) (enabled : run.Enabled) :
    run.finished.value = (⟨true, [], run.recorder.workingDir⟩, run.attempt.2) := by
  have on : run.ready.1.enabled = true := by rw [run.ready_eq enabled]
  rw [finished_eq, Logged.value_bind]
  change (run.ready.1.finish run.ready.2 run.atFinish).value = _
  rw [Recorder.value_finish _ _ _ on, run.ready_eq enabled, attempt, run.ready_eq enabled]

theorem errors_finished (run : Run) (enabled : run.Enabled) :
    run.finished.errors =
      match run.attempt.1 with
      | .error e => [e.chain.render]
      | .ok _ => [] := by
  have on : run.ready.1.enabled = true := by rw [run.ready_eq enabled]
  rw [finished_eq, Logged.errors_bind, run.errors_opening enabled, List.nil_append]
  exact Recorder.errors_finish run.ready.1 run.ready.2 run.atFinish on

theorem attempt_ok (run : Run) (enabled : run.Enabled) {path : String}
    (success : run.attempt.1 = .ok path) :
    ∃ cwd, run.ready.1.base run.ready.2 = .ok cwd ∧
      (Output.resolve run.ready.2 cwd run.atFinish).value.1 = .ok path ∧
      run.attempt.2.Holds (Utf8.encode path) (Output.content (recordedIds run.cases)) := by
  have written : (run.ready.1.write run.ready.2 run.atFinish).value = (.ok path, run.attempt.2) :=
    Prod.ext success rfl
  obtain ⟨cwd, based, wrote⟩ := Recorder.write_ok written
  obtain ⟨between, resolved, _⟩ := Output.write_ok wrote
  refine ⟨cwd, based, by rw [resolved], ?_⟩
  rw [← run.ids_ready enabled]
  exact Output.holds_of_write wrote

/-- A run that starts enabled either logs no error, and then the path that was resolved when it
finished holds the ids of its tests in the order of the cases, each with one line feed behind it, or
logs one, the fault of writing in the state right before the finish. In both cases the recorder
stays on, keeps its working directory and has no ids. What the recorder and the files were like
before is of no account. -/
theorem writes_or_reports (run : Run) (enabled : run.Enabled) :
    run.finished.value.1 = ⟨true, [], run.recorder.workingDir⟩ ∧
      ((run.finished.errors = [] ∧ ∃ cwd path,
          run.ready.1.base run.ready.2 = .ok cwd ∧
          (Output.resolve run.ready.2 cwd run.atFinish).value.1 = .ok path ∧
          run.attempt.1 = .ok path ∧
          run.finished.value.2.Holds (Utf8.encode path)
            ((recordedIds run.cases).flatMap fun id => Utf8.encode id ++ [0x0A])) ∨
        ∃ e, run.attempt.1 = .error e ∧ run.finished.errors = [e.chain.render]) := by
  have errors := run.errors_finished enabled
  rw [run.value_finished enabled]
  refine ⟨rfl, ?_⟩
  cases result : run.attempt.1 with
  | error e =>
    rw [result] at errors
    exact .inr ⟨e, rfl, errors⟩
  | ok path =>
    rw [result] at errors
    obtain ⟨cwd, based, resolved, holds⟩ := run.attempt_ok enabled result
    exact .inl ⟨errors, cwd, path, based, resolved, rfl, holds⟩

/-- A recorder with ids of a run that never finished, and an output file that is a link to a longer
file of another run. -/
def afterCrash : Run where
  recorder := ⟨false, ["[test:lost]"], none⟩
  files := (Tree.withDevices.addFile (Utf8.encode "old.txt")
    (Utf8.encode "[test:x]\n[test:y]\n[test:z]\n[test:w]\n")).addLink
      (Utf8.encode "unique-test-ids.txt") (Utf8.encode "old.txt")
  atStart := (Dictionary.ofPairs [(Parameters.enabledKey, " True\n")]).parameters
  cases := [(⟨"[test:b]", .test⟩, .failed none), (⟨"[suite:s]", .container⟩, .successful),
    (⟨"[test:a]", .containerAndTest⟩, .skipped (some "slow")), (⟨"[test:b]", .test⟩, .successful)]
  atFinish := .empty

theorem afterCrash_writes : afterCrash.Enabled ∧
    afterCrash.finished.value.1 = ⟨true, [], none⟩ ∧ afterCrash.finished.errors = [] ∧
    afterCrash.finished.value.2.fileAt? (Utf8.encode "old.txt") =
      some (Utf8.encode "[test:b]\n[test:a]\n[test:b]\n") ∧
    ∃ path, afterCrash.attempt.1 = .ok path ∧
      afterCrash.finished.value.2.Holds (Utf8.encode path)
        (Utf8.encode "[test:b]\n[test:a]\n[test:b]\n") := by
  have enabled : afterCrash.Enabled := by decide +kernel
  have silent : afterCrash.finished.errors = [] := by decide +kernel
  obtain ⟨state, ⟨_, _, path, _, _, success, holds⟩ | ⟨e, _, reported⟩⟩ :=
    afterCrash.writes_or_reports enabled
  · exact ⟨enabled, state, silent, by decide +kernel, path, success, holds⟩
  · rw [silent] at reported
    cases reported

end Run

end RunLedger
