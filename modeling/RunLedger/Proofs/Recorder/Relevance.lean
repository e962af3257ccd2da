import Mathlib.Data.List.Forall2
import RunLedger.Parameters.Document
import RunLedger.Parameters.Environment
import RunLedger.Proofs.Recorder.Run

set_option autoImplicit false

namespace RunLedger

open File Text Output

/-- Announcements that say the same where a recorder listens. The parameters can be of any sources
and set any other keys; outcomes, the ids of containers and the kinds of tests can be any. -/
inductive Hook.Alike : Hook → Hook → Prop
  | runStarted {p q : Parameters}
      (enabled : (p.get Parameters.enabledKey).value = (q.get Parameters.enabledKey).value) :
      Alike (.runStarted p) (.runStarted q)
  | caseFinished {i j : Identifier} {o o' : Outcome} (test : i.isTest = j.isTest)
      (id : i.isTest = true → i.uniqueId = j.uniqueId) :
      Alike (.caseFinished i o) (.caseFinished j o')
  | runFinished {p q : Parameters}
      (dir : (p.get Parameters.outputDirKey).value = (q.get Parameters.outputDirKey).value)
      (file : (p.get Parameters.outputFileKey).value = (q.get Parameters.outputFileKey).value) :
      Alike (.runFinished p) (.runFinished q)

namespace Output

variable {p q : Parameters}

theorem value_fileName (p : Parameters) :
    (fileName p).value =
      (notBlank (p.get Parameters.outputFileKey).value).getD defaultFileName := rfl

/-- Of all parameters the output directory depends on one. -/
theorem value_select_congr
    (dir : (p.get Parameters.outputDirKey).value = (q.get Parameters.outputDirKey).value)
    (t : Tree) (cwd : String) : (Dir.select t cwd p).value = (Dir.select t cwd q).value := by
  rw [Parameters.value_get, Parameters.value_get] at dir
  rw [value_select, value_select, dir]

theorem value_write_congr
    (dir : (p.get Parameters.outputDirKey).value = (q.get Parameters.outputDirKey).value)
    (file : (p.get Parameters.outputFileKey).value = (q.get Parameters.outputFileKey).value)
    (t : Tree) (cwd : String) (ids : List String) :
    (write t cwd p ids).value = (write t cwd q ids).value := by
  have name : (fileName p).value = (fileName q).value := by
    rw [value_fileName, value_fileName, file]
  have resolved : (resolve t cwd p).value = (resolve t cwd q).value := by
    rw [value_resolve, value_resolve, value_select_congr dir, name]
  rw [value_write, value_write, resolved]

end Output

namespace Recorder

theorem value_write_congr {p q : Parameters}
    (dir : (p.get Parameters.outputDirKey).value = (q.get Parameters.outputDirKey).value)
    (file : (p.get Parameters.outputFileKey).value = (q.get Parameters.outputFileKey).value)
    (r : Recorder) (t : Tree) : (r.write t p).value = (r.write t q).value := by
  unfold write
  split
  · rfl
  · exact Output.value_write_congr dir file t _ r.ids

theorem value_start_congr {p q : Parameters}
    (enabled : (p.get Parameters.enabledKey).value = (q.get Parameters.enabledKey).value)
    (r : Recorder) : (r.start p).value = (r.start q).value := by
  rw [Parameters.value_get, Parameters.value_get] at enabled
  rw [value_start, value_start, Parameters.value_getFlag, Parameters.value_getFlag, enabled]

theorem finishCase_congr {i j : Identifier} (test : i.isTest = j.isTest)
    (id : i.isTest = true → i.uniqueId = j.uniqueId) (r : Recorder) :
    r.finishCase i = r.finishCase j := by
  unfold finishCase
  rw [← test]
  by_cases kept : r.enabled = true ∧ i.isTest = true
  · rw [if_pos kept, if_pos kept, id kept.2]
  · rw [if_neg kept, if_neg kept]

theorem finish_off {r : Recorder} (off : ¬ r.enabled = true) (t : Tree) (p : Parameters) :
    r.finish t p = pure (r, t) :=
  if_neg off

/-- Alike announcements have the same effect on a recorder and the files, and the same errors are
reported. -/
theorem notify_alike {h h' : Hook} (alike : h.Alike h') (r : Recorder) (t : Tree) :
    (r.notify t h).value = (r.notify t h').value ∧
      (r.notify t h).errors = (r.notify t h').errors := by
  cases alike with
  | runStarted enabled =>
    constructor
    · exact congrArg (·, t) (value_start_congr enabled r)
    · simp [notify]
  | caseFinished test id =>
    simp only [notify]
    rw [finishCase_congr test id]
    exact ⟨rfl, rfl⟩
  | runFinished dir file =>
    simp only [notify]
    by_cases on : r.enabled = true
    · rw [value_finish r t _ on, value_finish r t _ on, errors_finish r t _ on,
        errors_finish r t _ on, value_write_congr dir file]
      exact ⟨rfl, rfl⟩
    · rw [finish_off on, finish_off on]
      exact ⟨rfl, rfl⟩

/-- Histories of alike announcements leave the same recorder and the same files, and the same errors
are reported on the way. -/
theorem notifyAll_eq_of_alike {first second : List Hook}
    (alike : List.Forall₂ Hook.Alike first second)
    (r : Recorder) (t : Tree) :
    (r.notifyAll t first).value = (r.notifyAll t second).value ∧
      (r.notifyAll t first).errors = (r.notifyAll t second).errors := by
  -- On both histories at once, for whatever recorder and files the announcements before have left.
  induction alike generalizing r t with
  | nil => exact ⟨rfl, rfl⟩
  | cons here _ ih =>
    obtain ⟨value, errors⟩ := notify_alike here r t
    simp only [notifyAll, Logged.value_bind, Logged.errors_bind, value, errors]
    obtain ⟨values, laterErrors⟩ := ih (r.notify t _).value.1 (r.notify t _).value.2
    exact ⟨values, congrArg _ laterErrors⟩

/-- A run with the parameters of dictionaries. -/
def ofDictionaries : List Hook :=
  [.runStarted (Dictionary.ofPairs [(Parameters.enabledKey, "true")]).parameters,
    .caseFinished ⟨"[suite:s]", .container⟩ .successful,
    .caseFinished ⟨"[test:a]", .test⟩ (.failed (some "boom")),
    .runFinished (Dictionary.ofPairs [(Parameters.outputFileKey, "ids.txt")]).parameters]

/-- The same run for a recorder, with other cases, and the parameters of a document at its start and
of an environment at its end. -/
def ofOtherSources : List Hook :=
  [.runStarted ((Document.ofText?
      "[uid.tracking]\nenabled = true\noutput.file = 'early.txt'\n").getD .empty).parameters,
    .caseFinished ⟨"[suite:other]", .container⟩ (.aborted none),
    .caseFinished ⟨"[test:a]", .containerAndTest⟩ .successful,
    .runFinished ((Environment.ofPairs [("UID_TRACKING_OUTPUT_FILE", Utf8.encode "ids.txt"),
      ("UID_TRACKING_ENABLED", Utf8.encode "false")]).parameters "")]

theorem ofOtherSources_records : List.Forall₂ Hook.Alike ofDictionaries ofOtherSources ∧
    ((new none).notifyAll .withDevices ofOtherSources).errors = [] ∧
    ((new none).notifyAll .withDevices ofOtherSources).value.2.fileAt? (Utf8.encode "ids.txt") =
      some (Utf8.encode "[test:a]\n") := by
  have alike : List.Forall₂ Hook.Alike ofDictionaries ofOtherSources :=
    .cons (.runStarted (by decide +kernel)) <| .cons (.caseFinished rfl (by decide)) <|
      .cons (.caseFinished rfl fun _ => rfl) <|
        .cons (.runFinished (by decide +kernel) (by decide +kernel)) .nil
  obtain ⟨value, errors⟩ := notifyAll_eq_of_alike alike (new none) .withDevices
  refine ⟨alike, ?_, ?_⟩
  · rw [← errors]
    decide +kernel
  · rw [← value]
    decide +kernel

end Recorder

end RunLedger
