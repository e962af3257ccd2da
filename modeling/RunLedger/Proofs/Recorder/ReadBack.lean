import RunLedger.Proofs.Output.Content
import RunLedger.Proofs.Recorder.Run
import RunLedger.Stream.Reader

set_option autoImplicit false

namespace RunLedger.Run

open File Text Output

/-- An enabled run succeeds in writing, and its path then leads to a regular file with the bytes. -/
def Leaves (run : Run) (bytes : Bytes) : Prop :=
  run.Enabled ∧ ∃ path, run.attempt.1 = .ok path ∧
    run.finished.value.2.fileAt? (Utf8.encode path) = some bytes

theorem Leaves.content_eq {run : Run} {bytes : Bytes} (leaves : run.Leaves bytes) :
    bytes = content (recordedIds run.cases) := by
  obtain ⟨enabled, path, success, regular⟩ := leaves
  obtain ⟨_, _, _, holds⟩ := run.attempt_ok enabled success
  rw [run.value_finished enabled] at regular
  exact holds.fileAt? regular

/-- The file of a run is read back as the recorded ids, each cut at its own line feeds: as the ids
themselves exactly if none has a line feed. Two runs leave the same file exactly if their ids are
cut into the same pieces, so never with different ids that have no line feeds. -/
theorem reads_back_pieces {run other : Run} {bytes others : Bytes} (leaves : run.Leaves bytes)
    (leaves' : other.Leaves others) :
    readLines? bytes = some ((recordedIds run.cases).flatMap lines) ∧
      (readLines? bytes = some (recordedIds run.cases) ↔
        ∀ i ∈ recordedIds run.cases, '\n' ∉ i.toList) ∧
      (bytes = others ↔
        (recordedIds run.cases).flatMap lines = (recordedIds other.cases).flatMap lines) ∧
      ((∀ i ∈ recordedIds run.cases ++ recordedIds other.cases, '\n' ∉ i.toList) →
        bytes = others → recordedIds run.cases = recordedIds other.cases) := by
  have read : readLines? bytes = some ((recordedIds run.cases).flatMap lines) := by
    rw [leaves.content_eq, readLines?_content]
  have same : bytes = others ↔
      (recordedIds run.cases).flatMap lines = (recordedIds other.cases).flatMap lines := by
    rw [leaves.content_eq, leaves'.content_eq, content_eq_iff]
  refine ⟨read, ?_, same, ?_⟩
  · rw [read, Option.some.injEq, flatMap_lines_eq_self_iff]
  · intro clean equal
    have pieces := same.mp equal
    have first : (recordedIds run.cases).flatMap lines = recordedIds run.cases :=
      (flatMap_lines_eq_self_iff _).mpr fun i among => clean i (List.mem_append_left _ among)
    have second : (recordedIds other.cases).flatMap lines = recordedIds other.cases :=
      (flatMap_lines_eq_self_iff _).mpr fun i among => clean i (List.mem_append_right _ among)
    rw [← first, pieces, second]

/-- A run of tests with these names, in an empty working directory. -/
def ofNames (names : List String) : Run where
  recorder := .new none
  files := .withDevices
  atStart := (Dictionary.ofPairs [(Parameters.enabledKey, "true")]).parameters
  cases := names.map fun name => (⟨Stream.uniqueId none name, .test⟩, .successful)
  atFinish := .empty

private theorem ofNames_leaves_two :
    (ofNames ["x", "y"]).Leaves (Utf8.encode "[test:x]\n[test:y]\n") :=
  ⟨by decide +kernel, "/unique-test-ids.txt", by decide +kernel, by decide +kernel⟩

/-- One test whose name has a line feed, and two tests, leave the same file. -/
theorem same_file_of_different_ids :
    (ofNames ["x]\n[test:y"]).Leaves (Utf8.encode "[test:x]\n[test:y]\n") ∧
      (ofNames ["x", "y"]).Leaves (Utf8.encode "[test:x]\n[test:y]\n") ∧
      recordedIds (ofNames ["x]\n[test:y"]).cases ≠ recordedIds (ofNames ["x", "y"]).cases ∧
      readLines? (Utf8.encode "[test:x]\n[test:y]\n") ≠
        some (recordedIds (ofNames ["x]\n[test:y"]).cases) := by
  have one : (ofNames ["x]\n[test:y"]).Leaves (Utf8.encode "[test:x]\n[test:y]\n") :=
    ⟨by decide +kernel, "/unique-test-ids.txt", by decide +kernel, by decide +kernel⟩
  exact ⟨one, ofNames_leaves_two, by decide +kernel, by decide +kernel⟩

theorem ofNames_reads_back :
    (ofNames ["x", "y"]).Leaves (Utf8.encode "[test:x]\n[test:y]\n") ∧
      (ofNames ["y", "x"]).Leaves (Utf8.encode "[test:y]\n[test:x]\n") ∧
      readLines? (Utf8.encode "[test:x]\n[test:y]\n") = some ["[test:x]", "[test:y]"] := by
  have swapped : (ofNames ["y", "x"]).Leaves (Utf8.encode "[test:y]\n[test:x]\n") :=
    ⟨by decide +kernel, "/unique-test-ids.txt", by decide +kernel, by decide +kernel⟩
  have clean : ∀ i ∈ recordedIds (ofNames ["x", "y"]).cases, '\n' ∉ i.toList := by decide +kernel
  refine ⟨ofNames_leaves_two, swapped, ?_⟩
  rw [(reads_back_pieces ofNames_leaves_two swapped).2.1.mpr clean]
  rfl

end RunLedger.Run
