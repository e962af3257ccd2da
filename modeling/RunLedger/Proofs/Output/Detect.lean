import RunLedger.Proofs.File.Written
import RunLedger.Proofs.Output.Write

set_option autoImplicit false

namespace RunLedger.Output

open File Text

/-- Something is at the path of the Maven build file. -/
def MavenIn (t : Tree) (cwd : String) : Prop :=
  t.has (Utf8.encode (join cwd Dir.mavenFile)) = true

/-- A name that ends like that of a Gradle build file. -/
def GradleName (n : Name) : Prop :=
  ∃ name, Utf8.decode? n = some name ∧ Dir.isGradleName name = true

/-- A regular file among the entries of the directory is a Gradle build file. -/
def GradleIn (t : Tree) (cwd : String) : Prop :=
  ∃ entries, t.readDir (Utf8.encode cwd) = .ok entries ∧
    ∃ e ∈ entries, Dir.isFile e.2 = true ∧ GradleName e.1

/-- The path of the Maven build file leads to a location with nothing at it. -/
def MavenSpot (t : Tree) (cwd : String) (l : Location) : Prop :=
  t.walk .find (Utf8.encode (join cwd Dir.mavenFile)) = .ok (.vacant l)

/-- A location is right inside the directory and has the name of a Gradle build file. -/
def GradleSpot (t : Tree) (cwd : String) (l : Location) : Prop :=
  ∃ p name, t.walk .find (Utf8.encode cwd) = .ok (.directory p) ∧ p.removed = 0 ∧
    l = name :: p.live ∧ GradleName name

/-- The rule that build files select a directory by, which is the first one that applies. -/
def Selects (t : Tree) (cwd : String) : DirKind → Prop
  | .custom => False
  | .maven => MavenIn t cwd
  | .gradle => ¬ MavenIn t cwd ∧ GradleIn t cwd
  | .workingDir => ¬ MavenIn t cwd ∧ ¬ GradleIn t cwd

/-- The directory that a rule selects. -/
def dirOf (cwd : String) : DirKind → String
  | .maven => join cwd Dir.mavenDir
  | .gradle => join cwd Dir.gradleDir
  | .custom | .workingDir => cwd

theorem Selects.ne_custom {t : Tree} {cwd : String} {kind : DirKind} (rule : Selects t cwd kind) :
    kind ≠ .custom := by
  intro custom
  rw [custom] at rule
  exact rule

theorem Selects.unique {t : Tree} {cwd : String} {first second : DirKind}
    (one : Selects t cwd first) (other : Selects t cwd second) : first = second := by
  cases first <;> cases second <;> simp_all [Selects]

theorem Selects.ne_iff {t : Tree} {cwd : String} {kind : DirKind} (rule : Selects t cwd kind)
    (other : DirKind) : kind ≠ other ↔ ¬ Selects t cwd other := by
  constructor
  · intro differs applies
    exact differs (rule.unique applies)
  · intro missing same
    rw [← same] at missing
    exact missing rule

theorem join_absolute {right : String} (absolute : right.toList.head? = some '/') (left : String) :
    join left right = right :=
  if_pos absolute

/-- What stands between a path and a name that is put behind it. -/
def slashBehind (path : String) : List Char :=
  if path.toList = [] ∨ path.toList.getLast? = some '/' then [] else ['/']

theorem toList_join {right : String} (relative : right.toList.head? ≠ some '/') (left : String) :
    (join left right).toList = left.toList ++ slashBehind left ++ right.toList := by
  rw [join, if_neg relative, slashBehind]
  split <;> simp

theorem slashBehind_join {dir : String} {c : Char} (relative : dir.toList.head? ≠ some '/')
    (ends : dir.toList.getLast? = some c) (other : c ≠ '/') (cwd : String) :
    slashBehind (join cwd dir) = ['/'] := by
  have last : (join cwd dir).toList.getLast? = some c := by
    rw [toList_join relative, List.getLast?_append, ends, Option.some_or]
  have filled : (join cwd dir).toList ≠ [] := by
    intro empty
    rw [empty] at last
    cases last
  rw [slashBehind, if_neg]
  rw [last, Option.some.injEq]
  exact not_or.mpr ⟨filled, other⟩

/-- Different rules put a name that is not absolute at different paths: these differ in length. -/
theorem join_dirOf_inj {cwd name : String} (relative : name.toList.head? ≠ some '/')
    {first second : DirKind} (one : first ≠ .custom) (other : second ≠ .custom)
    (same : join (dirOf cwd first) name = join (dirOf cwd second) name) : first = second := by
  have maven : (join (dirOf cwd .maven) name).toList.length =
      cwd.toList.length + (slashBehind cwd).length + 7 + name.toList.length := by
    have relative' : Dir.mavenDir.toList.head? ≠ some '/' := by decide
    have slash := slashBehind_join relative' (c := 't') rfl (by decide) cwd
    rw [dirOf, toList_join relative, slash, toList_join relative']
    simp only [List.length_append]
    rfl
  have gradle : (join (dirOf cwd .gradle) name).toList.length =
      cwd.toList.length + (slashBehind cwd).length + 6 + name.toList.length := by
    have relative' : Dir.gradleDir.toList.head? ≠ some '/' := by decide
    have slash := slashBehind_join relative' (c := 'd') rfl (by decide) cwd
    rw [dirOf, toList_join relative, slash, toList_join relative']
    simp only [List.length_append]
    rfl
  have here : (join (dirOf cwd .workingDir) name).toList.length =
      cwd.toList.length + (slashBehind cwd).length + name.toList.length := by
    rw [dirOf, toList_join relative]
    simp only [List.length_append]
  have lengths := congrArg (fun path : String => path.toList.length) same
  cases first <;> cases second <;> simp_all

/-- Without a fault the entries are looked at until a build file is found. -/
theorem hasGradleFile_ok {dir : String} {entries : List (Name × Node)} {found : Bool}
    (looked : Dir.hasGradleFile dir entries = .ok found) :
    found = true ↔ ∃ e ∈ entries, Dir.isFile e.2 = true ∧ GradleName e.1 := by
  induction entries with
  | nil =>
    cases looked
    simp
  | cons e rest ih =>
    obtain ⟨n, node⟩ := e
    rw [Dir.hasGradleFile_cons_eq] at looked
    split at looked
    · cases looked
    · rename_i name spelled
      have named : GradleName n ↔ Dir.isGradleName name = true := by
        unfold GradleName
        rw [spelled]
        simp
      split at looked
      · rename_i build
        cases looked
        have first : Dir.isFile node = true ∧ GradleName n := ⟨build.1, named.mpr build.2⟩
        simp only [true_iff]
        exact ⟨(n, node), List.mem_cons_self, first⟩
      · rename_i other
        have first : ¬ (Dir.isFile node = true ∧ GradleName n) := by
          rw [named]
          exact other
        rw [ih looked]
        simp only [List.mem_cons, exists_eq_or_imp, first, false_or]

theorem readDir_ok {t : Tree} {path : Bytes} {entries : List (Name × Node)}
    (read : t.readDir path = .ok entries) :
    ∃ p, t.walk .find path = .ok (.directory p) ∧ entries = t.listing p := by
  unfold Tree.readDir at read
  cases reached : t.walk .find path with
  | error f => rw [reached] at read; cases read
  | ok spot =>
    rw [reached] at read
    cases spot with
    | directory p =>
      cases read
      exact ⟨p, rfl, rfl⟩
    | node l n => cases read
    | vacant l => cases read

theorem gradleIn_of_looked {t : Tree} {cwd : String} {found : Bool}
    (looked : t.readDir (Utf8.encode cwd) >>= Dir.hasGradleFile cwd = .ok found) :
    ∃ p, t.walk .find (Utf8.encode cwd) = .ok (.directory p) ∧ (found = true ↔ GradleIn t cwd) := by
  cases read : t.readDir (Utf8.encode cwd) with
  | error f =>
    rw [read] at looked
    cases looked
  | ok entries =>
    rw [read] at looked
    obtain ⟨p, reached, _⟩ := readDir_ok read
    refine ⟨p, reached, ?_⟩
    rw [hasGradleFile_ok looked]
    constructor
    · intro build
      exact ⟨entries, read, build⟩
    · rintro ⟨entries', read', build⟩
      have same : entries' = entries := Except.ok.inj (read'.symm.trans read)
      rw [same] at build
      exact build

/-- A directory that is detected is that of the rule, and was read unless there is a Maven build
file. -/
theorem detect_ok {t : Tree} {cwd : String} {dir : Dir} (detected : Dir.detect t cwd = .ok dir) :
    dir.path = dirOf cwd dir.kind ∧ Selects t cwd dir.kind ∧
      (dir.kind ≠ .maven → ∃ p, t.walk .find (Utf8.encode cwd) = .ok (.directory p)) := by
  rw [Dir.detect_eq] at detected
  by_cases maven : t.has (Utf8.encode (join cwd Dir.mavenFile)) = true
  · rw [if_pos maven] at detected
    cases detected
    exact ⟨rfl, maven, fun other => absurd rfl other⟩
  · rw [if_neg maven] at detected
    cases looked : t.readDir (Utf8.encode cwd) >>= Dir.hasGradleFile cwd with
    | error f =>
      rw [looked] at detected
      cases detected
    | ok found =>
      obtain ⟨p, reached, gradle⟩ := gradleIn_of_looked looked
      rw [looked] at detected
      cases found with
      | true =>
        cases detected
        exact ⟨rfl, ⟨maven, gradle.mp rfl⟩, fun _ => ⟨p, reached⟩⟩
      | false =>
        cases detected
        refine ⟨rfl, ⟨maven, ?_⟩, fun _ => ⟨p, reached⟩⟩
        intro build
        cases gradle.mpr build

/-- A file that is written is at the path of the Maven build file if that leads to where the file is
made. -/
theorem mavenIn_writeFile {t t' : Tree} {file : String} {ids : List String}
    (success : writeFile t file ids = (.ok (), t')) (cwd : String) :
    MavenIn t' cwd ↔ MavenIn t cwd ∨
      ∃ l, t.walk .openFile (Utf8.encode file) = .ok (.vacant l) ∧ MavenSpot t cwd l := by
  rcases writeFile_ok success with ⟨l, opens, rfl⟩ | ⟨d, l, reached, rfl⟩
  · unfold MavenIn
    rw [opens.has_written_iff]
    constructor
    · rintro (there | new)
      · exact .inl there
      · exact .inr ⟨l, new⟩
    · rintro (there | ⟨l', made, led⟩)
      · exact .inl there
      · cases opens.location_eq made
        exact .inr ⟨made, led⟩
  · constructor
    · exact .inl
    · rintro (there | ⟨l', made, _⟩)
      · exact there
      · rw [reached] at made
        cases made

theorem isFile_of_becomes {before after : Node} (later : before.Becomes after) :
    Dir.isFile after = Dir.isFile before := by
  cases later <;> rfl

theorem GradleIn.grows {t t' : Tree} {cwd : String} (build : GradleIn t cwd) (grows : t.Grows t') :
    GradleIn t' cwd := by
  obtain ⟨entries, read, e, among, file, named⟩ := build
  obtain ⟨entries', read', kept⟩ := grows.readDir read
  obtain ⟨n', among', later⟩ := kept e among
  exact ⟨entries', read', (e.1, n'), among', (isFile_of_becomes later).trans file, named⟩

/-- A file that is written is a new Gradle build file if it is made right inside the directory, with
such a name. -/
theorem gradleIn_writeFile {t t' : Tree} {file : String} {ids : List String}
    (success : writeFile t file ids = (.ok (), t')) (cwd : String) :
    GradleIn t' cwd ↔ GradleIn t cwd ∨
      ∃ l, t.walk .openFile (Utf8.encode file) = .ok (.vacant l) ∧ GradleSpot t cwd l := by
  have grows : t.Grows t' := by
    have always := grows_writeFile t file ids
    rw [success] at always
    exact always
  rcases writeFile_ok success with ⟨l, opens, rfl⟩ | ⟨d, l, reached, rfl⟩
  · constructor
    · rintro ⟨entries, read, e, among, file, named⟩
      obtain ⟨p, reached, rfl⟩ := readDir_ok read
      obtain ⟨spot, led, ending⟩ := opens.walk_before reached
      cases ending with
      | elsewhere =>
        rcases opens.mem_listing_before among with ⟨n, old, later⟩ | ⟨nothing, live, here⟩
        · left
          refine ⟨t.listing p, ?_, (e.1, n), old, (isFile_of_becomes later).symm.trans file, named⟩
          rw [Tree.readDir, led]
          rfl
        · exact .inr ⟨l, opens.vacant_iff.mp nothing, p, e.1, led, live, here, named⟩
    · rintro (build | ⟨l', made, p, name, led, live, here, named⟩)
      · exact build.grows grows
      · cases opens.location_eq made
        refine ⟨_, ?_, (name, _), opens.mem_listing_written (content ids) live here, rfl, named⟩
        rw [Tree.readDir, grows.walk_directory led]
        rfl
  · constructor
    · exact .inl
    · rintro (build | ⟨l', made, _⟩)
      · exact build
      · rw [reached] at made
        cases made

end RunLedger.Output
