import RunLedger.Proofs.File.Around
import RunLedger.Proofs.Output.Select
import RunLedger.Proofs.Text.Bytes

set_option autoImplicit false

namespace RunLedger.Output

open File Text

/-- A text that names an entry of a directory. -/
def IsFileName (name : String) : Prop :=
  name ∉ ["", ".", ".."] ∧ '/' ∉ name.toList

instance : DecidablePred IsFileName := fun _ => inferInstanceAs (Decidable (_ ∧ _))

/-- Something that is no directory is at the path of a directory. -/
def Blocked (t : Tree) (dir : String) : Prop :=
  ∃ l n, t.walk .find (Utf8.encode dir) = .ok (.node l n)

/-- A path of the root that is longer than the system takes. -/
def Overlong (dir : String) : Prop :=
  (Path.ofBytes (Utf8.encode dir)).Stays ∧ Path.lengthLimit < (Utf8.encode dir).length

theorem separator_ascii : separator < 0x80 := by decide

theorem IsFileName.isName {name : String} (plain : IsFileName name) :
    Path.IsName (Utf8.encode name) := by
  obtain ⟨proper, single⟩ := plain
  have other (text : String) (special : text ∈ ["", ".", ".."]) :
      Utf8.encode name ≠ Utf8.encode text := by
    intro same
    rw [Utf8.encode_inj] at same
    exact proper (same ▸ special)
  constructor
  · intro among
    exact single (Utf8.mem_toList_of_mem_encode separator_ascii among)
  · have empty : Utf8.encode name ≠ [] := other "" (by decide)
    have here : Utf8.encode name ≠ [0x2E] := other "." (by decide)
    have up : Utf8.encode name ≠ [0x2E, 0x2E] := other ".." (by decide)
    rw [Path.step?, if_neg empty, if_neg here, if_neg up]

theorem getLast?_encode_eq_separator (s : String) :
    (Utf8.encode s).getLast? = some separator ↔ s.toList.getLast? = some '/' := by
  constructor
  · intro last
    obtain ⟨front, spelled⟩ := List.getLast?_eq_some_iff.mp last
    obtain ⟨one, other, _, nothing, rfl⟩ := Utf8.eq_append_of_encode_eq separator_ascii spelled
    cases nothing
    simp [separator]
  · intro last
    obtain ⟨front, spelled⟩ := List.getLast?_eq_some_iff.mp last
    rw [Utf8.encode, spelled, Utf8.encodeChars, List.flatMap_append]
    exact List.getLast?_concat

theorem encode_join (dir : String) {name : String} (plain : IsFileName name) :
    Utf8.encode (join dir name) = Path.withName (Utf8.encode dir) (Utf8.encode name) := by
  have relative : name.toList.head? ≠ some '/' := by
    intro first
    exact plain.2 (List.mem_of_head? first)
  have nothing : Utf8.encode dir = [] ↔ dir.toList = [] := by
    have empty : Utf8.encode dir = [] ↔ dir = "" := Utf8.encode_inj (t := "")
    rw [empty, String.toList_eq_nil_iff]
  rw [join, if_neg relative, Path.withName]
  simp only [nothing, getLast?_encode_eq_separator]
  split
  · rw [Utf8.encode_append]
  · rw [Utf8.encode_append, Utf8.encode_append, List.append_assoc]
    rfl

/-- The selected path is that of a directory once it was prepared, if nothing else was there. -/
theorem isDirectoryPath_of_prepare {t t' : Tree} {dir : String}
    (prepared : prepare t dir = (t', none)) (free : ¬ Blocked t dir) :
    t'.isDirectoryPath (Path.ofBytes (Utf8.encode dir)) = true := by
  rw [prepare] at prepared
  split at prepared
  · rename_i there
    cases prepared
    rw [Tree.has] at there
    split at there
    · rename_i q reached
      exact Tree.isDirectoryPath_iff.mpr ⟨q, Tree.walkPath_of_walk reached⟩
    · rename_i l n reached
      exact absurd ⟨l, n, reached⟩ free
    · cases there
  · exact Tree.isDirectoryPath_of_makeDirectories prepared

theorem join_ne_empty {right : String} (filled : right ≠ "") (left : String) :
    join left right ≠ "" := by
  unfold join
  split
  · exact filled
  · split <;> simp [filled]

theorem path_ne_empty_of_select {t : Tree} {cwd : String} {p : Parameters} {dir : Dir}
    (selected : (Dir.select t cwd p).value = .ok dir) : dir.path ≠ "" := by
  have target_filled : "target" ≠ "" := by decide
  have build_filled : "build" ≠ "" := by decide
  cases (applies_iff (v := .ofTree t)).mp selected with
  | custom named =>
    refine join_ne_empty ?_ cwd
    rintro rfl
    obtain ⟨c, among, -⟩ := named.2
    cases among
  | maven => exact join_ne_empty target_filled cwd
  | gradle => exact join_ne_empty build_filled cwd
  | workingDir left listed passed =>
    obtain ⟨q, reached, -⟩ := (readDir_ofTree_iff t _ _).mp listed
    rintro rfl
    cases reached

theorem Overlong.misspelled {dir : String} (overlong : Overlong dir) (p : Path) :
    Path.ofBytes? (Utf8.encode dir) ≠ .ok p := by
  intro spelled
  exact absurd ((Path.ofBytes?_eq_ok_iff _ _).mp spelled).2.2.2 (Nat.not_le.mpr overlong.2)

theorem Overlong.not_has {dir : String} (overlong : Overlong dir) (t : Tree) :
    t.has (Utf8.encode dir) = false := by
  rw [Bool.eq_false_iff]
  intro there
  obtain ⟨p, spelled⟩ := Tree.spelled_of_has there
  exact overlong.misspelled p spelled

/-- The system takes the path of a directory that was prepared, unless this is the root by a path
that is too long. -/
theorem spelled_of_prepare {t t' : Tree} {dir : String} (filled : dir ≠ "")
    (prepared : prepare t dir = (t', none)) (short : ¬ Overlong dir) :
    ∃ p, Path.ofBytes? (Utf8.encode dir) = .ok p := by
  rw [prepare] at prepared
  split at prepared
  · rename_i there
    exact Tree.spelled_of_has there
  · by_cases nowhere : (Path.ofBytes (Utf8.encode dir)).textSteps = []
    · have bytes : Utf8.encode dir ≠ [] := fun empty => filled (Utf8.encode_inj.mp empty)
      have stays := Path.stays_of_textSteps_eq_nil bytes nowhere
      refine ⟨_, (Path.ofBytes?_eq_ok_iff _ _).mpr ⟨rfl, stays.nul_not_mem, bytes, ?_⟩⟩
      exact Nat.not_lt.mp fun long => short ⟨stays, long⟩
    · rw [Tree.makeDirectories, Path.ancestors, if_neg nowhere] at prepared
      cases spelled : Path.ofBytes? (Utf8.encode dir) with
      | error f =>
        rw [spelled] at prepared
        cases prepared
      | ok p => exact ⟨p, rfl⟩

theorem has_of_prepare {t t' : Tree} {dir : String} (filled : dir ≠ "")
    (prepared : prepare t dir = (t', none)) :
    t'.has (Utf8.encode dir) = true ↔ ¬ Overlong dir := by
  constructor
  · intro there overlong
    rw [overlong.not_has t'] at there
    cases there
  · intro short
    obtain ⟨p, spelled⟩ := spelled_of_prepare filled prepared short
    rw [prepare] at prepared
    split at prepared
    · rename_i there
      cases prepared
      exact there
    · obtain ⟨q, reached⟩ := Tree.isDirectoryPath_iff.mp
        (Tree.isDirectoryPath_of_makeDirectories prepared)
      exact (t'.has_iff _).mpr (.inl ⟨q, (Tree.walk_of_spelled spelled).trans reached⟩)

theorem hasDirectory_of_prepare {t t' : Tree} {dir : String} (filled : dir ≠ "")
    (prepared : prepare t dir = (t', none)) (free : ¬ Blocked t dir) :
    t'.HasDirectory (Utf8.encode dir) ↔ ¬ Overlong dir := by
  constructor
  · rintro ⟨q, reached⟩ overlong
    obtain ⟨p, spelled, -⟩ := (t'.walk_eq_ok_iff _ _ _).mp reached
    exact overlong.misspelled p spelled
  · intro short
    obtain ⟨p, spelled⟩ := spelled_of_prepare filled prepared short
    obtain ⟨q, reached⟩ := Tree.isDirectoryPath_iff.mp (isDirectoryPath_of_prepare prepared free)
    exact ⟨q, (Tree.walk_of_spelled spelled).trans reached⟩

/-- The text around a name behind the prepared path is not too long either, even where that is. -/
theorem spelled_around_of_prepare {t t' : Tree} {dir : String} (filled : dir ≠ "")
    (prepared : prepare t dir = (t', none)) {n : Name} (name : Path.IsName n) :
    ∃ p, Path.ofBytes? (Path.around (Path.withName (Utf8.encode dir) n)) = .ok p := by
  have bytes : Utf8.encode dir ≠ [] := fun empty => filled (Utf8.encode_inj.mp empty)
  rw [Path.around_withName name bytes]
  by_cases short : Overlong dir
  · rw [Path.idleDropped_of_stays short.1]
    exact ⟨_, rfl⟩
  · obtain ⟨p, spelled⟩ := spelled_of_prepare filled prepared short
    exact Path.spelled_idleDropped spelled

/-- Parameters that name a directory and a file. -/
def placed (dir file : String) : Parameters :=
  (Dictionary.ofPairs
    [(Parameters.outputDirKey, dir), (Parameters.outputFileKey, file)]).parameters

/-- A directory in another one, neither of which is there. -/
def nested : Parameters :=
  placed "reports/run" "ids.txt"

/-- A fault can be told from others, though success cannot be compared. -/
instance decidableEqError {ε α : Type} [DecidableEq ε] (result : Except ε α) (e : ε) :
    Decidable (result = .error e) :=
  match result with
  | .error e' => decidable_of_iff (e' = e) (by rw [Except.error.injEq])
  | .ok _ => .isFalse (by intro same; cases same)

/-- A path is resolved, and then its file cannot be opened, for this fault. -/
def Fails (t : Tree) (cwd : String) (p : Parameters) (path : String) (f : Fault) : Prop :=
  (resolve t cwd p).value.1 = .ok path ∧
    (resolve t cwd p).value.2.create (Utf8.encode path) = .error f

instance (t : Tree) (cwd : String) (p : Parameters) (path : String) (f : Fault) :
    Decidable (Fails t cwd p path f) := inferInstanceAs (Decidable (_ ∧ _))

/-- A file is where the directory would be. -/
def withFile : Tree :=
  Tree.withDevices.addFile (Utf8.encode "/reports") (Utf8.encode "none yet")

/-- A link that leads nowhere is where the output file would be. -/
def withLink : Tree :=
  Tree.withDevices.addLink (Utf8.encode "/ids.txt") (Utf8.encode "gone/ids.txt")

/-- The working directory was removed. -/
def withoutDirectory : Tree :=
  ((Tree.withDevices.addDirectory (Utf8.encode "/work")).enter (Utf8.encode "/work")).remove
    (Utf8.encode "/work")

end RunLedger.Output
