import RunLedger.Proofs.Output.Order

set_option autoImplicit false

namespace RunLedger.Output

open File Text

/-- What a directory delivers in the place of an entry: the entry, or a fault in reading it. -/
abbrev Delivered := Except Fault (Name × Node)

/-- An entry that could be read, with a name that is text. -/
def Readable (e : Delivered) : Prop :=
  ∃ n node name, e = .ok (n, node) ∧ Utf8.decode? n = some name

/-- A regular file with a name that ends like that of a Gradle build file. Neither a directory nor a
link is one, wherever the link leads. -/
def BuildFile (e : Delivered) : Prop :=
  ∃ n content name, e = .ok (n, .file content) ∧ Utf8.decode? n = some name ∧
    ∃ ending ∈ [".gradle", ".gradle.kts"], ∃ stem, name = stem ++ ending

/-- The parameters set a directory, which white space alone does not. -/
def SetsDir (p : Parameters) (value : String) : Prop :=
  p.text? Parameters.outputDirKey = some value ∧ ∃ c ∈ value.toList, isWhite c = false

/-- No directory is set, and there is no Maven build file. -/
def LeftToEntries (v : Dir.View) (cwd : String) (p : Parameters) : Prop :=
  (∀ value, ¬ SetsDir p value) ∧ v.has (Utf8.encode (join cwd "pom.xml")) = false

theorem BuildFile.readable {e : Delivered} (build : BuildFile e) : Readable e := by
  obtain ⟨n, content, name, delivered, spelled, -⟩ := build
  exact ⟨n, .file content, name, delivered, spelled⟩

/-- A name that ends like that of a build file is a stem with such an ending behind it. -/
theorem isGradleName_iff (name : String) :
    Dir.isGradleName name = true ↔
      ∃ ending ∈ [".gradle", ".gradle.kts"], ∃ stem, name = stem ++ ending := by
  have suffix (ending : String) :
      ending.toList.isSuffixOf name.toList = true ↔ ∃ stem, name = stem ++ ending := by
    rw [List.isSuffixOf_iff_suffix]
    constructor
    · rintro ⟨stem, split⟩
      refine ⟨String.ofList stem, ?_⟩
      rw [← String.toList_inj, String.toList_append, String.toList_ofList, split]
    · rintro ⟨stem, rfl⟩
      rw [String.toList_append]
      exact List.suffix_append _ _
  rw [Dir.isGradleName, Dir.gradleEndings, List.any_eq_true]
  simp only [suffix]

theorem isFile_iff (node : Node) : Dir.isFile node = true ↔ ∃ content, node = .file content := by
  cases node <;> simp [Dir.isFile]

theorem findGradleFile_cons (dir : String) (e : Delivered) (rest : List Delivered) :
    (BuildFile e ∧ Dir.findGradleFile dir (e :: rest) = .ok true) ∨
      (¬ Readable e ∧ ∃ f, Dir.findGradleFile dir (e :: rest) = .error f) ∨
      (Readable e ∧ ¬ BuildFile e ∧
        Dir.findGradleFile dir (e :: rest) = Dir.findGradleFile dir rest) := by
  cases e with
  | error f =>
    refine .inr (.inl ⟨?_, f, rfl⟩)
    rintro ⟨n, node, name, impossible, -⟩
    cases impossible
  | ok entry =>
    obtain ⟨n, node⟩ := entry
    rw [Dir.findGradleFile]
    cases spelled : Utf8.decode? n with
    | none =>
      refine .inr (.inl ⟨?_, _, rfl⟩)
      rintro ⟨n', node', name, same, readable⟩
      cases same
      rw [spelled] at readable
      cases readable
    | some name =>
      dsimp only
      split
      · rename_i build
        obtain ⟨file, named⟩ := build
        obtain ⟨content, rfl⟩ := (isFile_iff node).mp file
        exact .inl ⟨⟨n, content, name, rfl, spelled, (isGradleName_iff name).mp named⟩, rfl⟩
      · rename_i other
        refine .inr (.inr ⟨⟨n, node, name, rfl, spelled⟩, ?_, rfl⟩)
        rintro ⟨n', content, name', same, spelled', ending⟩
        cases same
        cases Option.some.inj (spelled.symm.trans spelled')
        exact other ⟨(isFile_iff _).mpr ⟨content, rfl⟩, (isGradleName_iff name).mpr ending⟩

theorem findGradleFile_eq_true (dir : String) (entries : List Delivered) :
    Dir.findGradleFile dir entries = .ok true ↔ Comes BuildFile Readable entries := by
  induction entries with
  | nil => simp [Dir.findGradleFile, not_comes_nil]
  | cons e rest ih =>
    rw [comes_cons]
    rcases findGradleFile_cons dir e rest with ⟨build, found⟩ | ⟨refused, f, failed⟩ |
      ⟨readable, other, passed⟩
    · simp only [found, build, true_or]
    · have other : ¬ BuildFile e := fun build => refused build.readable
      simp only [failed, reduceCtorEq, other, refused, false_and, or_self]
    · simp only [passed, ih, other, readable, true_and, false_or]

/-- The look fails exactly if something that cannot be read comes before every build file. -/
theorem findGradleFile_eq_error (dir : String) (entries : List Delivered) :
    (∃ f, Dir.findGradleFile dir entries = .error f) ↔
      Comes (¬ Readable ·) (¬ BuildFile ·) entries := by
  induction entries with
  | nil => simp [Dir.findGradleFile, not_comes_nil]
  | cons e rest ih =>
    rw [comes_cons]
    rcases findGradleFile_cons dir e rest with ⟨build, found⟩ | ⟨refused, f, failed⟩ |
      ⟨readable, other, passed⟩
    · simp only [found, reduceCtorEq, exists_false, build.readable, build, not_true_eq_false,
        false_and, or_self]
    · simp only [failed, Except.error.injEq, exists_eq', refused, not_false_eq_true, true_or]
    · simp only [passed, ih, readable, other, not_true_eq_false, not_false_eq_true, true_and,
        false_or]

theorem findGradleFile_eq_false (dir : String) (entries : List Delivered) :
    Dir.findGradleFile dir entries = .ok false ↔ ∀ e ∈ entries, Readable e ∧ ¬ BuildFile e := by
  induction entries with
  | nil => simp [Dir.findGradleFile]
  | cons e rest ih =>
    rw [List.forall_mem_cons]
    rcases findGradleFile_cons dir e rest with ⟨build, found⟩ | ⟨refused, f, failed⟩ |
      ⟨readable, other, passed⟩
    · simp only [found, Except.ok.injEq, Bool.true_eq_false, build, not_true_eq_false, and_false,
        false_and]
    · simp only [failed, reduceCtorEq, refused, false_and]
    · simp only [passed, ih, readable, other, not_false_eq_true, and_self, true_and]

theorem notBlank_eq_some (text : Option String) (value : String) :
    notBlank text = some value ↔ text = some value ∧ ∃ c ∈ value.toList, isWhite c = false := by
  rw [notBlank, Option.filter_eq_some_iff]
  simp [isBlank]

theorem selectIn_of_set {p : Parameters} {value : String} (named : SetsDir p value) (v : Dir.View)
    (cwd : String) : (Dir.selectIn v cwd p).value = .ok ⟨join cwd value, .custom⟩ := by
  have filled : notBlank (p.text? Parameters.outputDirKey) = some value :=
    (notBlank_eq_some _ _).mpr named
  rw [Dir.selectIn, Logged.value_bind, Parameters.value_get, filled]
  rfl

theorem selectIn_of_unset {p : Parameters} (unset : ∀ value, ¬ SetsDir p value) (v : Dir.View)
    (cwd : String) : (Dir.selectIn v cwd p).value = Dir.detectIn v cwd := by
  have blank : notBlank (p.text? Parameters.outputDirKey) = none := by
    cases filled : notBlank (p.text? Parameters.outputDirKey) with
    | none => rfl
    | some value => exact absurd ((notBlank_eq_some _ _).mp filled) (unset value)
  rw [Dir.selectIn, Logged.value_bind, Parameters.value_get, blank]
  rfl

/-- What is left to the entries, the look through what the directory delivers decides. -/
theorem selectIn_of_entries {v : Dir.View} {cwd : String} {p : Parameters}
    (left : LeftToEntries v cwd p) :
    (Dir.selectIn v cwd p).value =
      match v.readDir (Utf8.encode cwd) >>= Dir.findGradleFile cwd with
      | .error f => .error (.readDir cwd f)
      | .ok true => .ok ⟨join cwd "build", .gradle⟩
      | .ok false => .ok ⟨cwd, .workingDir⟩ := by
  obtain ⟨unset, bare⟩ := left
  rw [selectIn_of_unset unset, Dir.detectIn]
  refine if_neg ?_
  exact Bool.eq_false_iff.mp bare

/-- What is selected, by the rule that applies. Where it is left to the entries, the look through
them says which one does. -/
inductive Applies (v : Dir.View) (cwd : String) (p : Parameters) : Except ResolveError Dir → Prop
  | custom {value : String} (named : SetsDir p value) :
      Applies v cwd p (.ok ⟨join cwd value, .custom⟩)
  | maven (unset : ∀ value, ¬ SetsDir p value)
      (there : v.has (Utf8.encode (join cwd "pom.xml")) = true) :
      Applies v cwd p (.ok ⟨join cwd "target", .maven⟩)
  | unlisted (left : LeftToEntries v cwd p) {f : Fault}
      (failed : v.readDir (Utf8.encode cwd) = .error f) : Applies v cwd p (.error (.readDir cwd f))
  | unread (left : LeftToEntries v cwd p) {entries : List Delivered} {f : Fault}
      (listed : v.readDir (Utf8.encode cwd) = .ok entries)
      (failed : Dir.findGradleFile cwd entries = .error f) :
      Applies v cwd p (.error (.readDir cwd f))
  | gradle (left : LeftToEntries v cwd p) {entries : List Delivered}
      (listed : v.readDir (Utf8.encode cwd) = .ok entries)
      (found : Dir.findGradleFile cwd entries = .ok true) :
      Applies v cwd p (.ok ⟨join cwd "build", .gradle⟩)
  | workingDir (left : LeftToEntries v cwd p) {entries : List Delivered}
      (listed : v.readDir (Utf8.encode cwd) = .ok entries)
      (passed : Dir.findGradleFile cwd entries = .ok false) :
      Applies v cwd p (.ok ⟨cwd, .workingDir⟩)

theorem Applies.selects {v : Dir.View} {cwd : String} {p : Parameters}
    {result : Except ResolveError Dir} (rule : Applies v cwd p result) :
    (Dir.selectIn v cwd p).value = result := by
  cases rule with
  | custom named => exact selectIn_of_set named v cwd
  | maven unset there =>
    rw [selectIn_of_unset unset, Dir.detectIn]
    exact if_pos there
  | unlisted left failed =>
    rw [selectIn_of_entries left, failed]
    rfl
  | unread left listed looked | gradle left listed looked | workingDir left listed looked =>
    rw [selectIn_of_entries left, listed]
    dsimp only [Bind.bind, Except.bind]
    rw [looked]

theorem exists_applies (v : Dir.View) (cwd : String) (p : Parameters) :
    ∃ result, Applies v cwd p result := by
  by_cases named : ∃ value, SetsDir p value
  · obtain ⟨value, named⟩ := named
    exact ⟨_, .custom named⟩
  have unset : ∀ value, ¬ SetsDir p value := not_exists.mp named
  cases there : v.has (Utf8.encode (join cwd "pom.xml")) with
  | true => exact ⟨_, .maven unset there⟩
  | false =>
    have left : LeftToEntries v cwd p := ⟨unset, there⟩
    cases listed : v.readDir (Utf8.encode cwd) with
    | error f => exact ⟨_, .unlisted left listed⟩
    | ok entries =>
      rcases looked : Dir.findGradleFile cwd entries with f | _ | _
      · exact ⟨_, .unread left listed looked⟩
      · exact ⟨_, .workingDir left listed looked⟩
      · exact ⟨_, .gradle left listed looked⟩

theorem applies_iff {v : Dir.View} {cwd : String} {p : Parameters}
    {result : Except ResolveError Dir} :
    (Dir.selectIn v cwd p).value = result ↔ Applies v cwd p result := by
  constructor
  · rintro rfl
    obtain ⟨result, rule⟩ := exists_applies v cwd p
    rw [rule.selects]
    exact rule
  · exact Applies.selects

/-- A directory of a tree delivers its entries, all of them. -/
theorem readDir_ofTree_iff (t : Tree) (path : Bytes) (entries : List Delivered) :
    (Dir.View.ofTree t).readDir path = .ok entries ↔
      ∃ q, t.walk .find path = .ok (.directory q) ∧ entries = (t.listing q).map .ok := by
  change (t.readDir path).map (·.map .ok) = .ok entries ↔ _
  constructor
  · intro delivered
    cases read : t.readDir path with
    | error f =>
      rw [read] at delivered
      cases delivered
    | ok listed =>
      rw [read] at delivered
      cases delivered
      obtain ⟨q, reached, rfl⟩ := readDir_ok read
      exact ⟨q, reached, rfl⟩
  · rintro ⟨q, reached, rfl⟩
    rw [Tree.readDir, reached]
    rfl

/-- The directory that is selected, for everything that can be seen of the files. A directory that
is set is the one, as it is set, behind the working directory or in its place, and then nothing else
matters. Otherwise it is Maven's if something is at the path of its build file. Otherwise the
entries decide, as they are delivered: it is Gradle's if a build file comes while everything can be
read, it is a fault of reading the working directory if this cannot be listed or something that
cannot be read comes before every build file, and it is the working directory itself if everything
can be read and nothing is a build file. A tree is seen so that a link has to lead somewhere to be
something and that the entries are those of the directory, and it is the same afterwards: the
directory is prepared in the tree that it was selected in. -/
theorem select_exactly (v : Dir.View) (cwd : String) (p : Parameters) :
    let result := (Dir.selectIn v cwd p).value
    (∀ path, result = .ok ⟨path, .custom⟩ ↔ ∃ value, SetsDir p value ∧ path = join cwd value) ∧
      (∀ value, SetsDir p value →
        (∀ v', (Dir.selectIn v' cwd p).value = .ok ⟨join cwd value, .custom⟩) ∧
          (value.toList.head? = some '/' → join cwd value = value)) ∧
      (∀ path, result = .ok ⟨path, .maven⟩ ↔
        (∀ value, ¬ SetsDir p value) ∧ v.has (Utf8.encode (join cwd "pom.xml")) = true ∧
          path = join cwd "target") ∧
      (∀ path, result = .ok ⟨path, .gradle⟩ ↔
        LeftToEntries v cwd p ∧ path = join cwd "build" ∧
          ∃ entries, v.readDir (Utf8.encode cwd) = .ok entries ∧ Comes BuildFile Readable entries) ∧
      ((∃ f, result = .error (.readDir cwd f)) ↔
        LeftToEntries v cwd p ∧
          ((∃ f, v.readDir (Utf8.encode cwd) = .error f) ∨
            ∃ entries, v.readDir (Utf8.encode cwd) = .ok entries ∧
              Comes (¬ Readable ·) (¬ BuildFile ·) entries)) ∧
      (∀ e, result = .error e → ∃ f, e = .readDir cwd f) ∧
      (∀ path, result = .ok ⟨path, .workingDir⟩ ↔
        LeftToEntries v cwd p ∧ path = cwd ∧
          ∃ entries, v.readDir (Utf8.encode cwd) = .ok entries ∧
            ∀ e ∈ entries, Readable e ∧ ¬ BuildFile e) ∧
      ∀ t : Tree, v = .ofTree t →
        (Dir.select t cwd p).value = result ∧
          (∀ dir, result = .ok dir → (resolve t cwd p).value.2 = (prepare t dir.path).1) ∧
          (∀ e, result = .error e → (resolve t cwd p).value.2 = t) ∧
          (∀ path, v.has path = true ↔ (∃ q, t.walk .find path = .ok (.directory q)) ∨
            ∃ l n, t.walk .find path = .ok (.node l n)) ∧
          ∀ path entries, v.readDir path = .ok entries ↔
            ∃ q, t.walk .find path = .ok (.directory q) ∧ entries = (t.listing q).map .ok := by
  intro result
  have rule_iff (outcome : Except ResolveError Dir) :
      result = outcome ↔ Applies v cwd p outcome := applies_iff
  refine ⟨fun path => ?_, ?_, fun path => ?_, fun path => ?_, ?_, ?_, fun path => ?_, ?_⟩
  · rw [rule_iff]
    constructor
    · rintro ⟨named⟩
      exact ⟨_, named, rfl⟩
    · rintro ⟨value, named, rfl⟩
      exact .custom named
  · intro value named
    exact ⟨fun v' => selectIn_of_set named v' cwd, fun absolute => join_absolute absolute cwd⟩
  · rw [rule_iff]
    constructor
    · intro rule
      cases rule with
      | maven unset there => exact ⟨unset, there, rfl⟩
    · rintro ⟨unset, there, rfl⟩
      exact .maven unset there
  · rw [rule_iff]
    constructor
    · intro rule
      cases rule with
      | gradle left listed found =>
        exact ⟨left, rfl, _, listed, (findGradleFile_eq_true cwd _).mp found⟩
    · rintro ⟨left, rfl, entries, listed, comes⟩
      exact .gradle left listed ((findGradleFile_eq_true cwd _).mpr comes)
  · simp only [rule_iff]
    constructor
    · rintro ⟨f, rule⟩
      cases rule with
      | unlisted left failed => exact ⟨left, .inl ⟨f, failed⟩⟩
      | unread left listed failed =>
        exact ⟨left, .inr ⟨_, listed, (findGradleFile_eq_error cwd _).mp ⟨f, failed⟩⟩⟩
    · rintro ⟨left, ⟨f, failed⟩ | ⟨entries, listed, comes⟩⟩
      · exact ⟨f, .unlisted left failed⟩
      · obtain ⟨f, failed⟩ := (findGradleFile_eq_error cwd _).mpr comes
        exact ⟨f, .unread left listed failed⟩
  · intro e failed
    cases (rule_iff _).mp failed with
    | unlisted => exact ⟨_, rfl⟩
    | unread => exact ⟨_, rfl⟩
  · rw [rule_iff]
    constructor
    · intro rule
      cases rule with
      | workingDir left listed passed =>
        exact ⟨left, rfl, _, listed, (findGradleFile_eq_false cwd _).mp passed⟩
    · rintro ⟨left, rfl, entries, listed, passed⟩
      exact .workingDir left listed ((findGradleFile_eq_false _ _).mpr passed)
  · rintro t rfl
    have unselected (e : ResolveError) (failed : result = .error e) :
        (resolve t cwd p).value.2 = t := by
      rw [resolve_unselected failed]
    exact ⟨rfl, fun dir => tree_resolve, unselected, t.has_iff, readDir_ofTree_iff t⟩

end RunLedger.Output
