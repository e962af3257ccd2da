import RunLedger.File.Layout
import RunLedger.Parameters.Dictionary
import RunLedger.Proofs.Output.Detect

set_option autoImplicit false

namespace RunLedger.Output

open File Text

/-- An entry that is a Gradle build file. -/
def IsBuildFile (e : Name × Node) : Prop :=
  Dir.isFile e.2 = true ∧ GradleName e.1

/-- An entry with a name that is text. -/
def IsLegible (e : Name × Node) : Prop :=
  (Utf8.decode? e.1).isSome = true

instance (t : Tree) (cwd : String) : Decidable (MavenIn t cwd) :=
  inferInstanceAs (Decidable (_ = true))

instance (e : Name × Node) : Decidable (IsLegible e) :=
  inferInstanceAs (Decidable (_ = true))

/-- Something of one sort is listed, and all before it is of another sort. -/
def Comes {α : Type} (sort past : α → Prop) (entries : List α) : Prop :=
  ∃ before e behind, entries = before ++ e :: behind ∧ sort e ∧ ∀ b ∈ before, past b

/-- A build file is listed before all names that are not text. -/
def ReachesBuildFile (entries : List (Name × Node)) : Prop :=
  ∃ before e behind, entries = before ++ e :: behind ∧ IsBuildFile e ∧ ∀ b ∈ before, IsLegible b

/-- There are both a build file and a name that is not text. -/
def Mixes (entries : List (Name × Node)) : Prop :=
  (∃ e ∈ entries, IsBuildFile e) ∧ ∃ e ∈ entries, ¬ IsLegible e

/-- Both select the same directory by the same rule, or both fail. -/
def Agree : Except ResolveError Dir → Except ResolveError Dir → Prop
  | .ok first, .ok second => first = second
  | .error _, .error _ => True
  | .ok _, .error _ | .error _, .ok _ => False

theorem Agree.isOk_eq {one other : Except ResolveError Dir} (agree : Agree one other) :
    one.isOk = other.isOk := by
  cases one <;> cases other <;> first | rfl | cases agree

theorem IsBuildFile.legible {e : Name × Node} (build : IsBuildFile e) : IsLegible e := by
  obtain ⟨-, name, spelled, -⟩ := build
  rw [IsLegible, spelled]
  rfl

theorem not_comes_nil {α : Type} (sort past : α → Prop) : ¬ Comes sort past [] := by
  rintro ⟨before, e, behind, split, -⟩
  exact List.append_ne_nil_of_right_ne_nil before (List.cons_ne_nil e behind) split.symm

theorem comes_cons {α : Type} (sort past : α → Prop) (e : α) (rest : List α) :
    Comes sort past (e :: rest) ↔ sort e ∨ past e ∧ Comes sort past rest := by
  constructor
  · rintro ⟨before, found, behind, split, sorted, passed⟩
    cases before with
    | nil =>
      cases split
      exact .inl sorted
    | cons b before =>
      cases split
      obtain ⟨first, others⟩ := List.forall_mem_cons.mp passed
      exact .inr ⟨first, before, found, behind, rfl, sorted, others⟩
  · rintro (sorted | ⟨first, before, found, behind, rfl, sorted, others⟩)
    · exact ⟨[], e, rest, rfl, sorted, fun _ none_there => nomatch none_there⟩
    · exact ⟨e :: before, found, behind, rfl, sorted, List.forall_mem_cons.mpr ⟨first, others⟩⟩

theorem not_reachesBuildFile_nil : ¬ ReachesBuildFile [] :=
  not_comes_nil IsBuildFile IsLegible

theorem reachesBuildFile_cons (e : Name × Node) (rest : List (Name × Node)) :
    ReachesBuildFile (e :: rest) ↔ IsBuildFile e ∨ IsLegible e ∧ ReachesBuildFile rest :=
  comes_cons IsBuildFile IsLegible e rest

theorem ReachesBuildFile.exists_mem {entries : List (Name × Node)}
    (reaches : ReachesBuildFile entries) : ∃ e ∈ entries, IsBuildFile e := by
  obtain ⟨before, e, behind, rfl, build, -⟩ := reaches
  exact ⟨e, List.mem_append_right before List.mem_cons_self, build⟩

theorem reachesBuildFile_of_legible {entries : List (Name × Node)}
    (legible : ∀ e ∈ entries, IsLegible e) :
    ReachesBuildFile entries ↔ ∃ e ∈ entries, IsBuildFile e := by
  constructor
  · exact ReachesBuildFile.exists_mem
  · rintro ⟨e, among, build⟩
    obtain ⟨before, behind, rfl⟩ := List.append_of_mem among
    exact ⟨before, e, behind, rfl, build,
      fun b earlier => legible b (List.mem_append_left _ earlier)⟩

/-- Entries that are not of both sorts reach a build file in any order or in none. -/
theorem reachesBuildFile_perm {entries entries' : List (Name × Node)} (plain : ¬ Mixes entries)
    (same : entries.Perm entries') : ReachesBuildFile entries ↔ ReachesBuildFile entries' := by
  by_cases build : ∃ e ∈ entries, IsBuildFile e
  · have legible (e : Name × Node) (among : e ∈ entries) : IsLegible e :=
      Decidable.of_not_not fun illegible => plain ⟨build, e, among, illegible⟩
    have legible' (e : Name × Node) (among : e ∈ entries') : IsLegible e :=
      legible e (same.mem_iff.mpr among)
    rw [reachesBuildFile_of_legible legible, reachesBuildFile_of_legible legible']
    simp only [same.mem_iff]
  · refine iff_of_false (fun reaches => build reaches.exists_mem) ?_
    intro reaches
    obtain ⟨e, among, found⟩ := reaches.exists_mem
    exact build ⟨e, same.mem_iff.mpr among, found⟩

/-- Entries of both sorts have an order that reaches a build file, and one that does not. -/
theorem Mixes.exists_orders {entries : List (Name × Node)} (mixes : Mixes entries) :
    ∃ first second, first.Perm entries ∧ second.Perm entries ∧
      ReachesBuildFile first ∧ ¬ ReachesBuildFile second := by
  obtain ⟨⟨e, among, build⟩, b, among', illegible⟩ := mixes
  -- Whichever of the two is put in front decides.
  refine ⟨e :: entries.erase e, b :: entries.erase b, (List.perm_cons_erase among).symm,
    (List.perm_cons_erase among').symm, ?_, ?_⟩
  · exact (reachesBuildFile_cons e _).mpr (.inl build)
  · rw [reachesBuildFile_cons]
    rintro (build' | ⟨legible, -⟩)
    · exact illegible build'.legible
    · exact illegible legible

theorem hasGradleFile_cons (dir : String) (e : Name × Node) (rest : List (Name × Node)) :
    (IsBuildFile e → Dir.hasGradleFile dir (e :: rest) = .ok true) ∧
      (¬ IsLegible e → ∃ f, Dir.hasGradleFile dir (e :: rest) = .error f) ∧
      (IsLegible e → ¬ IsBuildFile e →
        Dir.hasGradleFile dir (e :: rest) = Dir.hasGradleFile dir rest) := by
  obtain ⟨n, node⟩ := e
  rw [IsBuildFile, GradleName, IsLegible, Dir.hasGradleFile_cons_eq]
  cases spelled : Utf8.decode? n with
  | none => simp
  | some name => simp +contextual

theorem hasGradleFile_eq_true (dir : String) (entries : List (Name × Node)) :
    Dir.hasGradleFile dir entries = .ok true ↔ ReachesBuildFile entries := by
  induction entries with
  | nil => simp [Dir.hasGradleFile_nil, not_reachesBuildFile_nil]
  | cons e rest ih =>
    obtain ⟨found, failed, passed⟩ := hasGradleFile_cons dir e rest
    rw [reachesBuildFile_cons]
    by_cases legible : IsLegible e
    · by_cases build : IsBuildFile e
      · simp only [found build, build, true_or]
      · simp only [passed legible build, ih, build, legible, true_and, false_or]
    · obtain ⟨f, failed⟩ := failed legible
      have other : ¬ IsBuildFile e := fun build => legible build.legible
      simp only [failed, reduceCtorEq, other, legible, false_and, or_self]

theorem hasGradleFile_eq_false (dir : String) (entries : List (Name × Node)) :
    Dir.hasGradleFile dir entries = .ok false ↔
      ∀ e ∈ entries, IsLegible e ∧ ¬ IsBuildFile e := by
  induction entries with
  | nil => simp [Dir.hasGradleFile_nil]
  | cons e rest ih =>
    obtain ⟨found, failed, passed⟩ := hasGradleFile_cons dir e rest
    rw [List.forall_mem_cons]
    by_cases legible : IsLegible e
    · by_cases build : IsBuildFile e
      · simp only [found build, build, Except.ok.injEq, Bool.true_eq_false, not_true_eq_false,
          and_false, false_and]
      · simp only [passed legible build, ih, build, legible, not_false_eq_true, and_self, true_and]
    · obtain ⟨f, failed⟩ := failed legible
      simp only [failed, reduceCtorEq, legible, false_and]

/-- Without a directory in the parameters and a Maven build file, the entries decide. -/
theorem select_of_entries {t : Tree} {cwd : String} {p : Parameters} {entries : List (Name × Node)}
    (blank : notBlank (p.text? Parameters.outputDirKey) = none) (bare : ¬ MavenIn t cwd)
    (read : t.readDir (Utf8.encode cwd) = .ok entries) :
    (Dir.select t cwd p).value =
      match Dir.hasGradleFile cwd entries with
      | .error f => .error (.readDir cwd f)
      | .ok true => .ok ⟨join cwd Dir.gradleDir, .gradle⟩
      | .ok false => .ok ⟨cwd, .workingDir⟩ := by
  have absent : ¬ t.has (Utf8.encode (join cwd Dir.mavenFile)) = true := bare
  rw [value_select, blank]
  dsimp only
  rw [Dir.detect_eq, if_neg absent, read]
  rfl

/-- A working directory lists the same entries in two orders, without a Maven build file, and no
directory is set. The two orders select the same directory or fail both, exactly if a build file is
reached in both or in neither of them. That is so unless there are both a build file and a name that
is not text. -/
theorem select_agree_iff {t t' : Tree} {cwd : String} {p : Parameters}
    {entries entries' : List (Name × Node)}
    (blank : notBlank (p.text? Parameters.outputDirKey) = none)
    (bare : ¬ MavenIn t cwd) (bare' : ¬ MavenIn t' cwd)
    (read : t.readDir (Utf8.encode cwd) = .ok entries)
    (read' : t'.readDir (Utf8.encode cwd) = .ok entries') (same : entries.Perm entries') :
    (Agree (Dir.select t cwd p).value (Dir.select t' cwd p).value ↔
        (ReachesBuildFile entries ↔ ReachesBuildFile entries')) ∧
      (¬ Mixes entries → Agree (Dir.select t cwd p).value (Dir.select t' cwd p).value) := by
  have agree_iff : Agree (Dir.select t cwd p).value (Dir.select t' cwd p).value ↔
      (ReachesBuildFile entries ↔ ReachesBuildFile entries') := by
    -- Whether all entries are passed does not depend on their order.
    have passed : Dir.hasGradleFile cwd entries = .ok false ↔
        Dir.hasGradleFile cwd entries' = .ok false := by
      simp only [hasGradleFile_eq_false, same.mem_iff]
    rw [select_of_entries blank bare read, select_of_entries blank bare' read',
      ← hasGradleFile_eq_true cwd, ← hasGradleFile_eq_true cwd]
    generalize Dir.hasGradleFile cwd entries = looked at passed ⊢
    generalize Dir.hasGradleFile cwd entries' = looked' at passed ⊢
    rcases looked with f | _ | _ <;> rcases looked' with f' | _ | _ <;> simp_all [Agree]
  exact ⟨agree_iff, fun plain => agree_iff.mpr (reachesBuildFile_perm plain same)⟩

/-- A working directory `/p` with two files, which it lists in this order. -/
def listedAs (first second : Name) : Tree :=
  (Tree.withDevices.addFile (Utf8.encode "p/" ++ first) []).addFile (Utf8.encode "p/" ++ second) []

def twoFiles (first second : Name) : List (Name × Node) :=
  [(first, .file []), (second, .file [])]

def buildName : Name := Utf8.encode "build.gradle"

def textName : Name := Utf8.encode "README"

/-- A name that is not text. -/
def rawName : Name := [0xFF]

def nothingSet : Parameters := Dictionary.empty.parameters

theorem twoFiles_perm (first second : Name) :
    (twoFiles first second).Perm (twoFiles second first) :=
  List.Perm.swap _ _ []

theorem select_agree_of_text :
    notBlank (nothingSet.text? Parameters.outputDirKey) = none ∧
      ¬ MavenIn (listedAs textName buildName) "/p" ∧
      ¬ MavenIn (listedAs buildName textName) "/p" ∧
      (listedAs textName buildName).readDir (Utf8.encode "/p") = .ok (twoFiles textName buildName) ∧
      (listedAs buildName textName).readDir (Utf8.encode "/p") = .ok (twoFiles buildName textName) ∧
      Agree (Dir.select (listedAs textName buildName) "/p" nothingSet).value
        (Dir.select (listedAs buildName textName) "/p" nothingSet).value := by
  have blank : notBlank (nothingSet.text? Parameters.outputDirKey) = none := by decide +kernel
  have bare : ¬ MavenIn (listedAs textName buildName) "/p" := by decide +kernel
  have bare' : ¬ MavenIn (listedAs buildName textName) "/p" := by decide +kernel
  have read : (listedAs textName buildName).readDir (Utf8.encode "/p") =
      .ok (twoFiles textName buildName) := by decide +kernel
  have read' : (listedAs buildName textName).readDir (Utf8.encode "/p") =
      .ok (twoFiles buildName textName) := by decide +kernel
  have legible : ∀ e ∈ twoFiles textName buildName, IsLegible e := by decide +kernel
  have plain : ¬ Mixes (twoFiles textName buildName) := by
    rintro ⟨-, e, among, illegible⟩
    exact illegible (legible e among)
  exact ⟨blank, bare, bare', read, read',
    (select_agree_iff blank bare bare' read read' (twoFiles_perm _ _)).2 plain⟩

/-- A build file that is listed in front of a name that is not text selects its directory. In the
other order no directory is selected. -/
theorem not_agree_of_raw :
    notBlank (nothingSet.text? Parameters.outputDirKey) = none ∧
      ¬ MavenIn (listedAs buildName rawName) "/p" ∧
      ¬ MavenIn (listedAs rawName buildName) "/p" ∧
      (listedAs buildName rawName).readDir (Utf8.encode "/p") = .ok (twoFiles buildName rawName) ∧
      (listedAs rawName buildName).readDir (Utf8.encode "/p") = .ok (twoFiles rawName buildName) ∧
      (twoFiles buildName rawName).Perm (twoFiles rawName buildName) ∧
      (Dir.select (listedAs buildName rawName) "/p" nothingSet).value = .ok ⟨"/p/build", .gradle⟩ ∧
      (Dir.select (listedAs rawName buildName) "/p" nothingSet).value.isOk = false ∧
      ¬ Agree (Dir.select (listedAs buildName rawName) "/p" nothingSet).value
        (Dir.select (listedAs rawName buildName) "/p" nothingSet).value := by
  have selected : (Dir.select (listedAs buildName rawName) "/p" nothingSet).value =
      .ok ⟨"/p/build", .gradle⟩ := by decide +kernel
  have failed : (Dir.select (listedAs rawName buildName) "/p" nothingSet).value.isOk = false := by
    decide +kernel
  refine ⟨by decide +kernel, by decide +kernel, by decide +kernel, by decide +kernel,
    by decide +kernel, twoFiles_perm _ _, selected, failed, ?_⟩
  intro agree
  have same := agree.isOk_eq
  rw [selected, failed] at same
  cases same

end RunLedger.Output
