import Mathlib.Data.Prod.Basic
import RunLedger.Proofs.Output.Detect
import RunLedger.Proofs.Recorder.Run

set_option autoImplicit false

namespace RunLedger

open File Text Output

namespace Output

/-- A file that is made at a path is a build file: it is where the Maven build file is looked for,
or it is the first Gradle build file in the directory. -/
def BringsBuildFile (t : Tree) (cwd path : String) : Prop :=
  ∃ l, t.walk .openFile (Utf8.encode path) = .ok (.vacant l) ∧
    (MavenSpot t cwd l ∨ (¬ GradleIn t cwd ∧ GradleSpot t cwd l))

/-- After a write another rule applies exactly if there was no Maven build file, and making the
directory or the file brought a build file. -/
theorem rule_changes_iff {t between t' : Tree} {cwd path : String} {ids : List String}
    {dir dir' : Dir} (detected : Dir.detect t cwd = .ok dir)
    (prepared : prepare t dir.path = (between, none))
    (success : writeFile between path ids = (.ok (), t'))
    (detected' : Dir.detect t' cwd = .ok dir') :
    dir'.kind ≠ dir.kind ↔ ¬ MavenIn t cwd ∧
      (MavenIn between cwd ∨ BringsBuildFile between cwd path) := by
  have prepares : t.Grows between := by
    have always := grows_prepare t dir.path
    rw [prepared] at always
    exact always
  have maven := mavenIn_writeFile success cwd
  have gradle := gradleIn_writeFile success cwd
  obtain ⟨directory, rule, read⟩ := detect_ok detected
  obtain ⟨_, rule', _⟩ := detect_ok detected'
  obtain ⟨path₁, kind⟩ := dir
  dsimp only at directory rule read prepared ⊢
  cases kind with
  | custom => exact absurd rule id
  | maven =>
    have there : Selects t' cwd .maven := maven.mpr (.inl (prepares.has rule))
    rw [rule'.ne_iff]
    constructor
    · intro missing
      exact absurd there missing
    · rintro ⟨missing, _⟩
      exact absurd rule missing
  | gradle =>
    obtain ⟨missing, build⟩ := rule
    have build' : GradleIn between cwd := build.grows prepares
    have still : GradleIn t' cwd := gradle.mpr (.inl build')
    have change : ¬ Selects t' cwd .gradle ↔ MavenIn t' cwd := by
      simp only [Selects, still, and_true, Classical.not_not]
    rw [rule'.ne_iff, change, maven]
    simp only [BringsBuildFile, build', missing, not_true_eq_false, false_and, or_false,
      not_false_eq_true, true_and]
  | workingDir =>
    obtain ⟨missing, noBuild⟩ := rule
    obtain ⟨p, reached⟩ := read (by decide)
    have same : between = t := by
      rw [directory, dirOf, prepare_directory reached] at prepared
      exact (Prod.mk.inj prepared).1.symm
    subst same
    have change : ¬ Selects t' cwd .workingDir ↔ MavenIn t' cwd ∨ GradleIn t' cwd := by
      simp only [Selects, Classical.not_and_iff_not_or_not, Classical.not_not]
    rw [rule'.ne_iff, change, maven, gradle]
    simp only [BringsBuildFile, missing, noBuild, false_or, not_false_eq_true, true_and,
      and_or_left, exists_or]

/-- A first write to a path leads the next one elsewhere: the directory is found by build files, the
file has no absolute path, and the write brings a build file that comes before those that are there.
The tree in between has the output directory, but not the file yet. -/
structure Diverts (t : Tree) (cwd : String) (p : Parameters) (path : String) : Prop where
  detected : notBlank (p.text? Parameters.outputDirKey) = none
  relative : (fileName p).value.toList.head? ≠ some '/'
  noMaven : ¬ MavenIn t cwd
  brings : MavenIn (resolve t cwd p).value.2 cwd ∨
    BringsBuildFile (resolve t cwd p).value.2 cwd path

theorem detected_path_iff {t t' : Tree} {cwd name : String} {dir dir' : Dir}
    (relative : name.toList.head? ≠ some '/') (detected : Dir.detect t cwd = .ok dir)
    (detected' : Dir.detect t' cwd = .ok dir') :
    join dir'.path name = join dir.path name ↔ dir'.kind = dir.kind := by
  obtain ⟨directory, rule, _⟩ := detect_ok detected
  obtain ⟨directory', rule', _⟩ := detect_ok detected'
  rw [directory, directory']
  constructor
  · exact join_dirOf_inj relative rule'.ne_custom rule.ne_custom
  · intro same
    rw [same]

theorem write_again_path_iff {t t₁ t₂ : Tree} {cwd path path' : String} {p : Parameters}
    {ids ids' : List String} (wrote : (write t cwd p ids).value = (.ok path, t₁))
    (rewrote : (write t₁ cwd p ids').value = (.ok path', t₂)) :
    path' = path ↔ ¬ Diverts t cwd p path := by
  obtain ⟨between, resolved, written⟩ := write_ok wrote
  obtain ⟨between', resolved', _⟩ := write_ok rewrote
  obtain ⟨dir, selected, prepared, joined⟩ := resolve_ok resolved
  obtain ⟨dir', selected', _, joined'⟩ := resolve_ok resolved'
  rw [value_select] at selected selected'
  by_cases absolute : (fileName p).value.toList.head? = some '/'
  · have stays : path' = path := by
      rw [joined, joined', join_absolute absolute, join_absolute absolute]
    refine iff_of_true stays ?_
    intro diverts
    exact diverts.relative absolute
  cases custom : notBlank (p.text? Parameters.outputDirKey) with
  | some chosen =>
    rw [custom] at selected selected'
    have stays : path' = path := by
      rw [joined, joined', ← Except.ok.inj selected, ← Except.ok.inj selected']
    refine iff_of_true stays ?_
    intro diverts
    have none_chosen := diverts.detected
    rw [custom] at none_chosen
    cases none_chosen
  | none =>
    rw [custom] at selected selected'
    have tree : (resolve t cwd p).value.2 = between := by rw [resolved]
    have diverts : Diverts t cwd p path ↔ dir'.kind ≠ dir.kind := by
      rw [rule_changes_iff selected prepared written selected', ← tree]
      constructor
      · intro diverts
        exact ⟨diverts.noMaven, diverts.brings⟩
      · intro change
        exact ⟨custom, absolute, change.1, change.2⟩
    rw [diverts, joined, joined', detected_path_iff absolute selected selected', ne_eq,
      Classical.not_not]

end Output

namespace Recorder

theorem base_of_grows {first second : Recorder} {t t' : Tree}
    (same : second.workingDir = first.workingDir) (grows : t.Grows t') :
    second.base t' = first.base t := by
  unfold base Output.currentDir Tree.currentDir
  rw [same, grows.cwd]

/-- Of two writes with the same working directory and parameters, the second one goes to the same
path unless the first one diverts it. Its path then leads to a file, or a device, with the second
ids and nothing else. -/
theorem rewrite_same_path_iff {first second : Recorder} {t t₁ t₂ : Tree} {p : Parameters}
    {path path' : String} (same : second.workingDir = first.workingDir)
    (wrote : (first.write t p).value = (.ok path, t₁))
    (rewrote : (second.write t₁ p).value = (.ok path', t₂)) :
    ∃ cwd, first.base t = .ok cwd ∧ (path' = path ↔ ¬ Diverts t cwd p path) ∧
      t₂.Holds (Utf8.encode path') (content second.ids) ∧
      (path' = path → ∀ held, t₂.fileAt? (Utf8.encode path) = some held →
        held = content second.ids) := by
  have grows : t.Grows t₁ := by
    have always := first.grows_write t p
    rw [wrote] at always
    exact always
  obtain ⟨cwd, based, writes⟩ := write_ok wrote
  obtain ⟨cwd', based', writes'⟩ := write_ok rewrote
  have here : cwd' = cwd := by
    rw [base_of_grows same grows, based] at based'
    exact (Except.ok.inj based').symm
  subst here
  have holds := holds_of_write writes'
  refine ⟨cwd', based, write_again_path_iff writes writes', holds, ?_⟩
  intro stays held regular
  rw [← stays] at regular
  exact holds.fileAt? regular

/-- Parameters that name the output file, and a recorder that is to write one id. -/
def named (file : String) : Parameters :=
  (Dictionary.ofPairs [(Parameters.outputFileKey, file)]).parameters

def keeping (id : String) : Recorder :=
  ⟨true, [id], none⟩

/-- What two writes of one id each leave of a tree with nothing but devices. -/
def twice (file : String) : Tree :=
  ((keeping "[test:new]").write ((keeping "[test:old]").write .withDevices (named file)).value.2
    (named file)).value.2

/-- An output file with the name of a Maven build file is left behind with the ids of the first
write. -/
theorem pom_left_behind :
    ((keeping "[test:old]").write .withDevices (named "pom.xml")).value.1 = .ok "/pom.xml" ∧
      ((keeping "[test:new]").write
        ((keeping "[test:old]").write .withDevices (named "pom.xml")).value.2
          (named "pom.xml")).value.1 = .ok "/target/pom.xml" ∧
      (twice "pom.xml").fileAt? (Utf8.encode "/pom.xml") = some (Utf8.encode "[test:old]\n") := by
  refine ⟨by decide +kernel, by decide +kernel, by decide +kernel⟩

theorem ids_file_rewritten :
    ¬ Diverts .withDevices "/" (named "ids.txt") "/ids.txt" ∧
      (twice "ids.txt").Holds (Utf8.encode "/ids.txt") (Utf8.encode "[test:new]\n") := by
  have first : ((keeping "[test:old]").write .withDevices (named "ids.txt")).value.1 =
      .ok "/ids.txt" := by decide +kernel
  have second : ((keeping "[test:new]").write
      ((keeping "[test:old]").write .withDevices (named "ids.txt")).value.2
        (named "ids.txt")).value.1 = .ok "/ids.txt" := by decide +kernel
  have based : (keeping "[test:old]").base .withDevices = .ok "/" := by decide +kernel
  have same : (keeping "[test:new]").workingDir = (keeping "[test:old]").workingDir := rfl
  have lines : content (keeping "[test:new]").ids = Utf8.encode "[test:new]\n" := by decide +kernel
  obtain ⟨cwd, found, stays, holds, _⟩ :=
    rewrite_same_path_iff same (Prod.fst_eq_iff.mp first) (Prod.fst_eq_iff.mp second)
  have here : cwd = "/" := Except.ok.inj (found.symm.trans based)
  rw [here] at stays
  rw [lines] at holds
  exact ⟨stays.mp rfl, holds⟩

end Recorder

end RunLedger
