import RunLedger.Proofs.File.Change
import RunLedger.Output.Target

set_option autoImplicit false

namespace RunLedger.Output

open File Text

/-- Success can be decided, though faults cannot be compared. -/
instance decidableEqOk {ε α : Type} [DecidableEq α] (result : Except ε α) (a : α) :
    Decidable (result = .ok a) :=
  match result with
  | .ok b => decidable_of_iff (b = a) (by rw [Except.ok.injEq])
  | .error _ => .isFalse (by intro same; cases same)

theorem value_select (t : Tree) (cwd : String) (p : Parameters) :
    (Dir.select t cwd p).value =
      match notBlank (p.text? Parameters.outputDirKey) with
      | some dir => .ok ⟨join cwd dir, .custom⟩
      | none => Dir.detect t cwd := by
  simp only [Dir.select, Dir.selectIn, Logged.value_bind, Parameters.value_get]
  cases notBlank (p.text? Parameters.outputDirKey) <;> rfl

theorem value_resolve (t : Tree) (cwd : String) (p : Parameters) :
    (resolve t cwd p).value =
      match (Dir.select t cwd p).value with
      | .error e => (.error e, t)
      | .ok dir =>
        match prepare t dir.path with
        | (t, some f) => (.error (.createDir dir.path f), t)
        | (t, none) => (.ok (join dir.path (fileName p).value), t) := by
  simp only [resolve, Logged.value_bind]
  cases (Dir.select t cwd p).value with
  | error e => rfl
  | ok dir =>
    simp only [Logged.value_bind]
    rcases prepare t dir.path with ⟨after, _ | f⟩ <;> rfl

theorem value_write (t : Tree) (cwd : String) (p : Parameters) (ids : List String) :
    (write t cwd p ids).value =
      match (resolve t cwd p).value with
      | (.error e, t) => (.error (.resolve e), t)
      | (.ok file, t) =>
        match writeFile t file ids with
        | (.error e, t) => (.error e, t)
        | (.ok (), t) => (.ok file, t) := by
  simp only [write, Logged.value_bind]
  rcases (resolve t cwd p).value with ⟨e | file, between⟩
  · rfl
  · simp only [Logged.value_bind]
    rcases writeFile between file ids with ⟨e | done, after⟩ <;> rfl

theorem resolve_ok {t t' : Tree} {cwd path : String} {p : Parameters}
    (success : (resolve t cwd p).value = (.ok path, t')) :
    ∃ dir, (Dir.select t cwd p).value = .ok dir ∧ prepare t dir.path = (t', none) ∧
      path = join dir.path (fileName p).value := by
  rw [value_resolve] at success
  split at success
  · cases success
  · rename_i dir selected
    split at success
    · cases success
    · rename_i prepared
      cases success
      exact ⟨dir, selected, prepared, rfl⟩

theorem write_ok {t t' : Tree} {cwd path : String} {p : Parameters} {ids : List String}
    (success : (write t cwd p ids).value = (.ok path, t')) :
    ∃ between, (resolve t cwd p).value = (.ok path, between) ∧
      writeFile between path ids = (.ok (), t') := by
  rw [value_write] at success
  split at success
  · cases success
  · rename_i file between resolved
    split at success
    · cases success
    · rename_i written
      cases success
      exact ⟨between, resolved, written⟩

theorem grows_prepare (t : Tree) (dir : String) : t.Grows (prepare t dir).1 := by
  unfold prepare
  split
  · exact .refl t
  · exact t.grows_makeDirectories _

/-- In a directory that is there nothing has to be made. -/
theorem prepare_directory {t : Tree} {dir : String} {p : Place}
    (there : t.walk .find (Utf8.encode dir) = .ok (.directory p)) : prepare t dir = (t, none) := by
  rw [prepare, if_pos]
  rw [Tree.has, there]

theorem tree_resolve {t : Tree} {cwd : String} {p : Parameters} {dir : Dir}
    (selected : (Dir.select t cwd p).value = .ok dir) :
    (resolve t cwd p).value.2 = (prepare t dir.path).1 := by
  rw [value_resolve, selected]
  dsimp only
  rcases prepare t dir.path with ⟨after, _ | f⟩ <;> rfl

theorem resolve_unselected {t : Tree} {cwd : String} {p : Parameters} {e : ResolveError}
    (failed : (Dir.select t cwd p).value = .error e) :
    (resolve t cwd p).value = (.error e, t) := by
  rw [value_resolve, failed]

theorem grows_resolve (t : Tree) (cwd : String) (p : Parameters) :
    t.Grows (resolve t cwd p).value.2 := by
  cases selected : (Dir.select t cwd p).value with
  | error e =>
    rw [resolve_unselected selected]
    exact .refl t
  | ok dir =>
    rw [tree_resolve selected]
    exact grows_prepare t dir.path

/-- Writing a file leaves the tree as it is, or a file was opened and holds the lines of the ids. -/
theorem writeFile_cases (t : Tree) (file : String) (ids : List String) :
    (writeFile t file ids).2 = t ∨
      ∃ l, t.Opens (Utf8.encode file) l ∧
        writeFile t file ids = (.ok (), t.written l (content ids)) := by
  unfold writeFile
  split
  · exact .inl rfl
  · rename_i h opened success
    rcases Tree.create_ok success with ⟨l, rfl, opens, rfl⟩ | ⟨d, l, rfl, _, rfl⟩
    · exact .inr ⟨l, opens, rfl⟩
    · left
      cases d with
      | null => rfl
      | full =>
        by_cases empty : content ids = []
        · simp only [Tree.write, empty, ↓reduceIte]
        · simp only [Tree.write, empty, ↓reduceIte]

theorem grows_writeFile (t : Tree) (file : String) (ids : List String) :
    t.Grows (writeFile t file ids).2 := by
  rcases writeFile_cases t file ids with same | ⟨l, opens, written⟩
  · rw [same]
    exact .refl t
  · rw [written]
    exact opens.grows_written (content ids)

/-- Once its path is resolved, a write leaves the tree in which the file was written. -/
theorem tree_write {t between : Tree} {cwd path : String} {p : Parameters}
    (resolved : (resolve t cwd p).value = (.ok path, between)) (ids : List String) :
    (write t cwd p ids).value.2 = (writeFile between path ids).2 := by
  rw [value_write, resolved]
  dsimp only
  rcases writeFile between path ids with ⟨e | done, after⟩ <;> rfl

theorem write_unresolved {t between : Tree} {cwd : String} {p : Parameters} {e : ResolveError}
    (failed : (resolve t cwd p).value = (.error e, between)) (ids : List String) :
    (write t cwd p ids).value = (.error (.resolve e), between) := by
  rw [value_write, failed]

theorem grows_write (t : Tree) (cwd : String) (p : Parameters) (ids : List String) :
    t.Grows (write t cwd p ids).value.2 := by
  have resolves := grows_resolve t cwd p
  rcases resolved : (resolve t cwd p).value with ⟨e | path, between⟩
  · rw [resolved] at resolves
    rw [write_unresolved resolved ids]
    exact resolves
  · rw [resolved] at resolves
    rw [tree_write resolved ids]
    exact resolves.trans (grows_writeFile between path ids)

/-- A file that was written was opened before, or is a device, which leaves the tree as it is. -/
theorem writeFile_ok {t t' : Tree} {file : String} {ids : List String}
    (success : writeFile t file ids = (.ok (), t')) :
    (∃ l, t.Opens (Utf8.encode file) l ∧ t' = t.written l (content ids)) ∨
      ∃ d l, t.walk .openFile (Utf8.encode file) = .ok (.node l (.device d)) ∧ t' = t := by
  unfold writeFile at success
  split at success
  · cases success
  · rename_i h opened created
    split at success
    · cases success
    · rename_i written
      cases success
      rcases Tree.create_ok created with ⟨l, rfl, opens, rfl⟩ | ⟨d, l, rfl, reached, rfl⟩
      · cases written
        exact .inl ⟨l, opens, rfl⟩
      · refine .inr ⟨d, l, reached, ?_⟩
        cases d with
        | null => exact (Except.ok.inj written).symm
        | full =>
          simp only [Tree.write] at written
          split at written
          · exact (Except.ok.inj written).symm
          · cases written

/-- A file that was written holds the lines of the ids and nothing else. -/
theorem holds_of_writeFile {t t' : Tree} {file : String} {ids : List String}
    (success : writeFile t file ids = (.ok (), t')) :
    t'.Holds (Utf8.encode file) (content ids) := by
  rcases writeFile_ok success with ⟨l, opens, rfl⟩ | ⟨d, l, reached, rfl⟩
  · exact .inl ⟨l, opens.walk_written (content ids)⟩
  · exact .inr ⟨l, d, Tree.walk_device reached⟩

theorem holds_of_write {t t' : Tree} {cwd path : String} {p : Parameters} {ids : List String}
    (success : (write t cwd p ids).value = (.ok path, t')) :
    t'.Holds (Utf8.encode path) (content ids) := by
  obtain ⟨_, _, written⟩ := write_ok success
  exact holds_of_writeFile written

end RunLedger.Output
