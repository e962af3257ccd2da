import RunLedger.Proofs.Recorder.Run
import RunLedger.Proofs.Stream.Protocol

set_option autoImplicit false

namespace RunLedger

open File Text

/-- A recorder that listens on its own does what the announcements do to it, and tells nothing. -/
theorem Listener.notifyAll_recorder (r : Recorder) (t : Tree) (hooks : List Hook) :
    (Listener.recorder r).notifyAll t hooks =
      (fun after => ⟨.recorder after.1, [], after.2⟩) <$> r.notifyAll t hooks := by
  induction hooks generalizing r t with
  | nil => rfl
  | cons h rest ih =>
    simp only [Listener.notifyAll, Recorder.notifyAll, Listener.notify, bind_assoc, map_bind,
      pure_bind]
    congr 1
    funext after
    rw [ih after.1 after.2, bind_map_left]
    exact bind_pure_comp _ _

namespace Stream

/-- No record among the actions is an error. -/
def Quiet (actions : List Action) : Prop :=
  ∀ record, Action.log record ∈ actions → record.level ≠ .error

theorem Quiet.append {first second : List Action} (one : Quiet first) (other : Quiet second) :
    Quiet (first ++ second) := by
  intro record logged
  rcases List.mem_append.mp logged with early | late
  · exact one record early
  · exact other record late

theorem quiet_nil : Quiet [] := by
  intro record logged
  cases logged

theorem quiet_hook (h : Hook) : Quiet [.hook h] := by
  intro record logged
  cases List.mem_singleton.mp logged

theorem quiet_log {record : Record} (harmless : record.level ≠ .error) : Quiet [.log record] := by
  intro same logged
  cases List.mem_singleton.mp logged
  exact harmless

theorem quiet_lineActions (r : Reader) (n : Nat) (l : Line) : Quiet (r.lineActions n l) := by
  cases l with
  | blank => exact quiet_nil
  | chatter text => exact quiet_log (by simp)
  | foreign => exact quiet_log (by simp)
  | event e =>
    cases e with
    | suiteStarted | other => exact quiet_nil
    | testFinished name outcome => exact quiet_hook _

theorem quiet_actions (r : Reader) (started : Bool) (n : Nat) (ls : List Line) :
    Quiet (r.actions started n ls) := by
  induction ls generalizing started n with
  | nil => exact quiet_nil
  | cons l rest ih =>
    refine (Quiet.append ?_ (quiet_lineActions r n l)).append (ih _ _)
    split
    · exact quiet_hook _
    · exact quiet_nil

/-- The reader itself logs no error, whatever the stream is. -/
theorem quiet_read (r : Reader) (s : Source) : Quiet (r.read s).actions := by
  refine (Quiet.append (quiet_actions r _ _ _) ?_).append (quiet_log (by simp [Tally.record]))
  split
  · exact quiet_hook _
  · exact quiet_nil

/-- With no error among the records, the errors are those of the listener. -/
theorem errors_dispatch {actions : List Action} (quiet : Quiet actions) (t : Tree) (l : Listener) :
    (dispatch t l actions).errors = (l.notifyAll t (hooksOf actions)).errors := by
  induction actions generalizing t l with
  | nil => rfl
  | cons a rest ih =>
    have later : Quiet rest := fun record logged => quiet record (List.mem_cons_of_mem a logged)
    cases a with
    | log record =>
      have harmless := quiet record List.mem_cons_self
      rw [dispatch, Logged.errors_bind, Logged.errors_log, if_neg harmless]
      exact ih later t l
    | hook h =>
      change _ = (l.notifyAll t (h :: hooksOf rest)).errors
      rw [dispatch, Listener.notifyAll]
      simp only [Logged.errors_bind, Logged.errors_pure, ih later]

/-- The run that a reader announces to a recorder when tests finish. -/
def Reader.run (reader : Reader) (recorder : Recorder) (t : Tree)
    (tests : List (String × Outcome)) :
    Run where
  recorder := recorder
  files := t
  atStart := reader.parameters
  cases := tests.map fun test => (⟨uniqueId reader.binaryId test.1, .test⟩, test.2)
  atFinish := reader.parameters

theorem Reader.hooks_run (reader : Reader) (recorder : Recorder) (t : Tree)
    (tests : List (String × Outcome)) :
    (reader.run recorder t tests).hooks =
      .runStarted reader.parameters :: tests.map reader.caseOf ++
        [.runFinished reader.parameters] := by
  simp only [Run.hooks, Run.opening, announced, Reader.run, List.map_map]
  rfl

theorem Reader.recordedIds_run (reader : Reader) (recorder : Recorder) (t : Tree)
    (tests : List (String × Outcome)) :
    recordedIds (reader.run recorder t tests).cases =
      tests.map fun test => uniqueId reader.binaryId test.1 := by
  induction tests with
  | nil => rfl
  | cons test rest ih =>
    change recordedIds ((_, _) :: (reader.run recorder t rest).cases) = _
    rw [recordedIds_cons, ih]
    rfl

/-- Reading a stream that starts a run is that run, for a recorder. -/
theorem dispatch_read_run (reader : Reader) {s : Source}
    (starts : ((texts s.lines).map Line.ofText).any (·.startsRun) = true) (recorder : Recorder)
    (t : Tree) :
    let run := reader.run recorder t (((texts s.lines).map Line.ofText).filterMap Line.test?)
    let told := dispatch t (.recorder recorder) (reader.read s).actions
    told.value = ⟨.recorder run.finished.value.1, [], run.finished.value.2⟩ ∧
      told.errors = run.finished.errors := by
  intro run told
  have hooks : hooksOf (reader.read s).actions = run.hooks := by
    rw [hooksOf_read, if_pos starts, Reader.hooks_run]
  have finished : run.finished = recorder.notifyAll t run.hooks := rfl
  constructor
  · rw [value_dispatch, hooks, Listener.notifyAll_recorder, Logged.value_map, finished]
  · rw [errors_dispatch (quiet_read reader s), hooks, Listener.notifyAll_recorder,
      Logged.errors_map, finished]

/-- A stream is read into a recorder with parameters that enable it. Its finished tests are those of
the lines that are delivered before reading ends, and they are counted. If no such line starts a
suite or finishes a test, the recorder and the files stay as they are. Otherwise the recorder is on
and has no ids afterwards. Either one error was logged, the fault of writing the ids of these tests,
or none, and then the path of the output file holds a line for each of the ids, in the order of the
stream, and nothing else. -/
theorem read_into_recorder (reader : Reader) (s : Source) (recorder : Recorder) (t : Tree)
    (enables : (reader.parameters.getFlag Parameters.enabledKey).value = some true) :
    let told := dispatch t (.recorder recorder) (reader.read s).actions
    ∃ tests : List (String × Outcome),
      let ids := tests.map fun test => uniqueId reader.binaryId test.1
      List.Forall₂ (fun line test => FinishesTest line test.1 test.2)
        ((texts s.lines).filter fun line => FinishesSome line) tests ∧
      (reader.read s).tally.testsFinished = ids.length ∧
      ((¬ ∃ line ∈ texts s.lines, StartsSuite line ∨ FinishesSome line) →
        told.value = ⟨.recorder recorder, [], t⟩) ∧
      ((∃ line ∈ texts s.lines, StartsSuite line ∨ FinishesSome line) →
        told.value.value = .recorder ⟨true, [], recorder.workingDir⟩ ∧
          ((∃ e, (Recorder.write ⟨true, ids.reverse, recorder.workingDir⟩ t
                reader.parameters).value.1 = .error e ∧ told.errors = [e.chain.render]) ∨
            told.errors = [] ∧ ∃ cwd path, recorder.base t = .ok cwd ∧
              (Output.resolve t cwd reader.parameters).value.1 = .ok path ∧
              told.value.tree.Holds (Utf8.encode path)
                (ids.flatMap fun id => Utf8.encode id ++ [0x0A]))) := by
  intro told
  have starts : ((texts s.lines).map Line.ofText).any (·.startsRun) = true ↔
      ∃ line ∈ texts s.lines, StartsSuite line ∨ FinishesSome line := by
    simp [List.any_eq_true, startsRun_ofText]
  refine ⟨((texts s.lines).map Line.ofText).filterMap Line.test?, forall₂_tests _, ?_, ?_, ?_⟩
  · rw [List.length_map]
    exact congrArg Tally.testsFinished (tally_ofLines (texts s.lines))
  · intro quiet
    rw [value_dispatch, hooksOf_read, if_neg (starts.not.mpr quiet)]
    rfl
  · intro started
    obtain ⟨value, errors⟩ := dispatch_read_run reader (starts.mpr started) recorder t
    generalize ((texts s.lines).map Line.ofText).filterMap Line.test? = tests at value errors ⊢
    have enabled : (reader.run recorder t tests).Enabled := enables
    have reports := Run.errors_finished _ enabled
    rw [value, errors, Run.value_finished _ enabled]
    refine ⟨rfl, ?_⟩
    cases result : (reader.run recorder t tests).attempt.1 with
    | error e =>
      rw [result] at reports
      rw [Run.attempt, Run.ready_eq _ enabled, Reader.recordedIds_run] at result
      exact .inl ⟨e, result, reports⟩
    | ok path =>
      rw [result] at reports
      obtain ⟨cwd, based, resolved, holds⟩ := Run.attempt_ok _ enabled result
      rw [Run.ready_eq _ enabled] at based resolved
      rw [Reader.recordedIds_run] at holds
      exact .inr ⟨reports, cwd, path, based, resolved, holds⟩

/-- A stream that breaks off in the line of its second test. -/
def brokenOff : Source where
  bytes := Utf8.encode
    "\x7b\"type\":\"test\",\"name\":\"a\",\"event\":\"failed\"\x7d\r\n\x7b\"type\""
  failure := some (.other "pipe closed" [])

def qualified : Reader where
  parameters := (Dictionary.ofPairs [(Parameters.enabledKey, "TRUE")]).parameters
  binaryId := some "core"

/-- A recorder with an id of a run that never finished. -/
def unfinished : Recorder :=
  ⟨false, ["[test:lost]"], none⟩

/-- A working directory with the output file of an earlier run. -/
def usedBefore : Tree :=
  Tree.withDevices.addFile (Utf8.encode "unique-test-ids.txt")
    (Utf8.encode "[test:x]\n[test:y]\n[test:z]\n")

theorem brokenOff_recorded :
    (qualified.parameters.getFlag Parameters.enabledKey).value = some true ∧
      let told := dispatch usedBefore (.recorder unfinished) (qualified.read brokenOff).actions
      told.errors = [] ∧ told.value.value = .recorder ⟨true, [], none⟩ ∧
        told.value.tree.Holds (Utf8.encode "/unique-test-ids.txt")
          (Utf8.encode "[binary:core]/[test:a]\n") := by
  have enables : (qualified.parameters.getFlag Parameters.enabledKey).value = some true := by
    decide +kernel
  have starts : ∃ line ∈ texts brokenOff.lines, StartsSuite line ∨ FinishesSome line := by
    decide +kernel
  have found : unfinished.base usedBefore = .ok "/" ∧
      (Output.resolve usedBefore "/" qualified.parameters).value.1 =
        .ok "/unique-test-ids.txt" := by decide +kernel
  obtain ⟨tests, _, _, _, recorded⟩ :=
    read_into_recorder qualified brokenOff unfinished usedBefore enables
  obtain ⟨state, outcome⟩ := recorded starts
  generalize ran : dispatch usedBefore (.recorder unfinished) (qualified.read brokenOff).actions =
    told at state outcome ⊢
  have written : told.errors = [] ∧ told.value.tree.fileAt? (Utf8.encode "/unique-test-ids.txt") =
      some (Utf8.encode "[binary:core]/[test:a]\n") := by
    rw [← ran]
    decide +kernel
  rcases outcome with ⟨e, _, reported⟩ | ⟨_, cwd, path, based, resolved, holds⟩
  · rw [written.1] at reported
    cases reported
  · have here : cwd = "/" := Except.ok.inj (based.symm.trans found.1)
    rw [here] at resolved
    have there : path = "/unique-test-ids.txt" := Except.ok.inj (resolved.symm.trans found.2)
    rw [there] at holds
    rw [← holds.fileAt? written.2] at holds
    exact ⟨enables, written.1, state, holds⟩

end Stream

end RunLedger
