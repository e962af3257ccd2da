import Mathlib.Data.List.Forall2
import RunLedger.Proofs.Stream.Report
import RunLedger.Stream.Dispatch

set_option autoImplicit false

namespace RunLedger.Stream

open File Text

/-- The hook that an action announces. -/
def Action.hook? : Action → Option Hook
  | .log _ => none
  | .hook h => some h

def hooksOf (actions : List Action) : List Hook :=
  actions.filterMap Action.hook?

@[simp] theorem hooksOf_append (first second : List Action) :
    hooksOf (first ++ second) = hooksOf first ++ hooksOf second :=
  List.filterMap_append

/-- A finished test as the host of a binary announces it. -/
def Reader.caseOf (r : Reader) (test : String × Outcome) : Hook :=
  .caseFinished ⟨uniqueId r.binaryId test.1, .test⟩ test.2

theorem hooksOf_lineActions (r : Reader) (n : Nat) (l : Line) :
    hooksOf (r.lineActions n l) = l.test?.toList.map r.caseOf := by
  cases l with
  | blank | chatter text | foreign => rfl
  | event e => cases e <;> rfl

theorem test?_eq_none {l : Line} (quiet : l.startsRun = false) : l.test? = none := by
  cases l with
  | blank | chatter text | foreign => rfl
  | event e =>
    cases e with
    | suiteStarted | other => rfl
    | testFinished name outcome => cases quiet

/-- From any line on, the run starts if it has not started and a line starts it, and this comes
before all its cases. The induction is on the lines, for both values of the flag. -/
theorem hooksOf_actions (r : Reader) (started : Bool) (n : Nat) (ls : List Line) :
    hooksOf (r.actions started n ls) =
      (if ls.any (·.startsRun) ∧ ¬ started then [.runStarted r.parameters] else []) ++
        (ls.filterMap Line.test?).map r.caseOf := by
  induction ls generalizing started n with
  | nil => simp [Reader.actions, hooksOf]
  | cons l rest ih =>
    rw [Reader.actions, hooksOf_append, hooksOf_append, hooksOf_lineActions, ih]
    have cases : ((l :: rest).filterMap Line.test?).map r.caseOf =
        l.test?.toList.map r.caseOf ++ (rest.filterMap Line.test?).map r.caseOf := by
      cases test : l.test? <;> simp [test]
    rw [cases]
    cases starts : l.startsRun with
    | true => cases started <;> simp [starts, hooksOf, Action.hook?]
    | false => cases started <;> simp [starts, hooksOf, test?_eq_none starts]

theorem hooksOf_read (r : Reader) (s : Source) :
    hooksOf (r.read s).actions =
      if ((texts s.lines).map Line.ofText).any (·.startsRun) then
        .runStarted r.parameters ::
          (((texts s.lines).map Line.ofText).filterMap Line.test?).map r.caseOf ++
            [.runFinished r.parameters]
      else [] := by
  unfold Reader.read
  simp only [hooksOf_append, hooksOf_actions]
  generalize (texts s.lines).map Line.ofText = ls
  cases starts : ls.any (·.startsRun) with
  | true => simp [hooksOf, Action.hook?]
  | false =>
    have quiet (l : Line) (delivered : l ∈ ls) : l.test? = none :=
      test?_eq_none (by simpa using List.any_eq_false.mp starts l delivered)
    rw [List.filterMap_eq_nil_iff.mpr quiet]
    simp [hooksOf, Action.hook?]

theorem forall₂_tests (lines : List String) :
    List.Forall₂ (fun line test => FinishesTest line test.1 test.2)
      (lines.filter fun line => FinishesSome line)
      ((lines.map Line.ofText).filterMap Line.test?) := by
  induction lines with
  | nil => exact .nil
  | cons line rest ih =>
    rw [List.map_cons, List.filterMap_cons]
    cases said : (Line.ofText line).test? with
    | none =>
      have quiet : ¬ FinishesSome line := by
        rw [← isSome_test?_ofText, said]
        exact Bool.false_ne_true
      rw [List.filter_cons_of_neg (by simpa using quiet)]
      exact ih
    | some test =>
      have finishes : FinishesTest line test.1 test.2 := (test?_ofText _ _ _).mp said
      rw [List.filter_cons_of_pos (by simpa using ⟨_, _, finishes⟩)]
      exact .cons finishes ih

theorem tally_ofLines (lines : List String) :
    Tally.ofLines (lines.map Line.ofText) =
      ⟨lines.countP fun line => StartsSuite line,
        ((lines.map Line.ofText).filterMap Line.test?).length,
        lines.countP fun line => IsSkipped line⟩ := by
  have suites : (lines.map Line.ofText).countP (·.isSuiteStart) =
      lines.countP fun line => StartsSuite line := by
    rw [List.countP_map]
    apply List.countP_congr
    intro line _
    rw [Function.comp_apply, isSuiteStart_ofText, decide_eq_true_iff]
  have tests : (lines.map Line.ofText).countP (·.isTestFinish) =
      ((lines.map Line.ofText).filterMap Line.test?).length := by
    rw [List.length_filterMap_eq_countP]
    apply List.countP_congr
    intro l _
    rw [isSome_test?]
  have skipped : (lines.map Line.ofText).countP (·.isSkipped) =
      lines.countP fun line => IsSkipped line := by
    rw [List.countP_map]
    apply List.countP_congr
    intro line _
    rw [Function.comp_apply, isSkipped_ofText, decide_eq_true_iff]
  rw [Tally.ofLines, suites, tests, skipped]

/-- Carrying out actions has the effect of announcing their hooks; records affect no listener. -/
theorem value_dispatch (t : Tree) (l : Listener) (actions : List Action) :
    (dispatch t l actions).value = (l.notifyAll t (hooksOf actions)).value := by
  induction actions generalizing t l with
  | nil => rfl
  | cons a rest ih =>
    cases a with
    | log r =>
      rw [dispatch, Logged.value_bind]
      exact ih t l
    | hook h =>
      change (dispatch t l (.hook h :: rest)).value = (l.notifyAll t (h :: hooksOf rest)).value
      rw [dispatch, Listener.notifyAll]
      simp only [Logged.value_bind, Logged.value_pure, ih]

theorem records_dispatch_log (t : Tree) (l : Listener) (actions : List Action) (r : Record) :
    (dispatch t l (actions ++ [.log r])).records = (dispatch t l actions).records ++ [r] := by
  induction actions generalizing t l with
  | nil => rfl
  | cons a rest ih =>
    cases a with
    | log first =>
      rw [List.cons_append, dispatch, dispatch, Logged.records_bind, Logged.records_bind, ih,
        List.append_assoc]
    | hook h =>
      rw [List.cons_append, dispatch, dispatch]
      simp only [Logged.records_bind, Logged.records_pure, List.append_nil, ih, List.append_assoc]

/-- What reading a stream returns: the counts, unless it failed. -/
def Reading.result (x : Reading) : Except ReadError Tally :=
  x.failure.elim (.ok x.tally) .error

/-- Of the lines that are delivered, those that finish a test report the cases, each its own. With
no line that starts a suite or finishes a test nothing is announced. Otherwise the run starts, has
these cases and finishes, whether the stream ends or fails. The counts are those of the lines that
start a suite, of the cases and of the lines that are skipped; they are logged at the end, and
returned unless reading failed. Any listener is left as these announcements alone leave it. -/
theorem read_announces_one_run (r : Reader) (s : Source) :
    ∃ tests : List (String × Outcome), ∃ counts : Tally,
      List.Forall₂ (fun line test => FinishesTest line test.1 test.2)
        ((texts s.lines).filter fun line => FinishesSome line) tests ∧
      ((¬ ∃ line ∈ texts s.lines, StartsSuite line ∨ FinishesSome line) →
        hooksOf (r.read s).actions = []) ∧
      ((∃ line ∈ texts s.lines, StartsSuite line ∨ FinishesSome line) →
        hooksOf (r.read s).actions =
          [.runStarted r.parameters] ++
            tests.map (fun test =>
              .caseFinished ⟨uniqueId r.binaryId test.1, .test⟩ test.2) ++
            [.runFinished r.parameters]) ∧
      counts = ⟨(texts s.lines).countP fun line => StartsSuite line, tests.length,
        (texts s.lines).countP fun line => IsSkipped line⟩ ∧
      (r.read s).result = (Reader.failure? s).elim (.ok counts) .error ∧
      ∀ (t : Tree) (l : Listener),
        (dispatch t l (r.read s).actions).value =
          (l.notifyAll t (hooksOf (r.read s).actions)).value ∧
        (dispatch t l (r.read s).actions).records.getLast? = some counts.record := by
  have starts : (((texts s.lines).map Line.ofText).any (·.startsRun)) = true ↔
      ∃ line ∈ texts s.lines, StartsSuite line ∨ FinishesSome line := by
    simp [List.any_eq_true, startsRun_ofText]
  refine ⟨((texts s.lines).map Line.ofText).filterMap Line.test?, (r.read s).tally,
    forall₂_tests (texts s.lines), ?_, ?_, tally_ofLines (texts s.lines), rfl, ?_⟩
  · intro quiet
    rw [hooksOf_read, if_neg (starts.not.mpr quiet)]
  · intro started
    rw [hooksOf_read, if_pos (starts.mpr started)]
    rfl
  · intro t l
    refine ⟨value_dispatch t l _, ?_⟩
    unfold Reader.read
    dsimp only
    rw [records_dispatch_log, List.getLast?_concat]

end RunLedger.Stream
