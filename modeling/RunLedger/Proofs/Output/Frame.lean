import RunLedger.Proofs.File.Made
import RunLedger.Proofs.Output.Detect
import RunLedger.Recorder

set_option autoImplicit false

namespace RunLedger

open File Text

namespace Output

/-- A tree has changed into another one only by directories that were made where they may be, and by
one file at most. Everything that was there is still there and is of the same kind, links with the
same target, and every regular file but the one has kept its content. -/
structure Confined (t t' : Tree) (mayMake : Location → Prop) (file : Option Location) : Prop where
  cwd : t'.cwd = t.cwd
  kept : ∀ l n, t.node? l = some n → ∃ n', t'.node? l = some n' ∧ n.Becomes n'
  content : ∀ l held, t.node? l = some (.file held) → file ≠ some l →
    t'.node? l = some (.file held)
  added : ∀ l n, t.node? l = none → t'.node? l = some n →
    (n = .directory ∧ mayMake l) ∨ (file = some l ∧ ∃ held, n = .file held)

theorem Confined.refl (t : Tree) (mayMake : Location → Prop) : Confined t t mayMake none := by
  refine ⟨rfl, fun _ n found => ⟨n, found, .same n⟩, fun _ _ found _ => found, ?_⟩
  intro l n nothing found
  rw [nothing] at found
  cases found

theorem confined_of_made {t t' : Tree} {mayMake : Location → Prop} (grows : t.Grows t')
    (each : ∀ l, t'.node? l = t.node? l ∨
      (t.node? l = none ∧ t'.node? l = some .directory ∧ mayMake l)) :
    Confined t t' mayMake none := by
  refine ⟨grows.cwd, grows.kept, ?_, ?_⟩
  · intro l held found _
    rcases each l with same | ⟨nothing, _, _⟩
    · rw [same, found]
    · rw [nothing] at found
      cases found
  · intro l n nothing found
    rcases each l with same | ⟨_, there, may⟩
    · rw [same, nothing] at found
      cases found
    · rw [there] at found
      exact .inl ⟨(Option.some.inj found).symm, may⟩

theorem Confined.mono {t t' : Tree} {mayMake mayMake' : Location → Prop} {file : Option Location}
    (confined : Confined t t' mayMake file) (wider : ∀ l, mayMake l → mayMake' l) :
    Confined t t' mayMake' file := by
  refine ⟨confined.cwd, confined.kept, confined.content, ?_⟩
  intro l n nothing found
  rcases confined.added l n nothing found with ⟨made, may⟩ | opened
  · exact .inl ⟨made, wider l may⟩
  · exact .inr opened

/-- A file that is opened and written after directories were made is the one file. -/
theorem Confined.written {t between : Tree} {mayMake : Location → Prop} {path : Bytes}
    {l : Location}
    (confined : Confined t between mayMake none) (opens : between.Opens path l) (lines : Bytes) :
    Confined t (between.written l lines) mayMake (some l) := by
  have grows := opens.grows_written lines
  have elsewhere {l' : Location} (aside : l' ≠ l) :
      (between.written l lines).node? l' = between.node? l' := by
    rw [Tree.node?_written between opens.named, if_neg aside]
  refine ⟨grows.cwd.trans confined.cwd, ?_, ?_, ?_⟩
  · intro l' n found
    obtain ⟨n', found', becomes⟩ := confined.kept l' n found
    obtain ⟨n'', found'', becomes'⟩ := grows.kept l' n' found'
    exact ⟨n'', found'', becomes.trans becomes'⟩
  · intro l' held found other
    have aside : l' ≠ l := fun same => other (same ▸ rfl)
    rw [elsewhere aside]
    exact confined.content l' held found (by simp)
  · intro l' n nothing found
    by_cases here : l' = l
    · subst here
      rw [Tree.node?_written between opens.named, if_pos rfl] at found
      exact .inr ⟨rfl, lines, (Option.some.inj found).symm⟩
    · rw [elsewhere here] at found
      rcases confined.added l' n nothing found with made | ⟨none, _⟩
      · exact .inl made
      · cases none

/-- The directory at a location is on the way to the one that was selected for the output: some
first steps of its path lead to it. The working directory itself was selected by another rule. -/
def OnTheWay (t : Tree) (cwd : String) (p : Parameters) (t' : Tree) (l : Location) : Prop :=
  ∃ dir, (Dir.select t cwd p).value = .ok dir ∧ dir.kind ≠ .workingDir ∧
    t'.Names (Utf8.encode dir.path) l

theorem OnTheWay.grows {t t' t'' : Tree} {cwd : String} {p : Parameters} {l : Location}
    (way : OnTheWay t cwd p t' l) (grows : t'.Grows t'') : OnTheWay t cwd p t'' l := by
  obtain ⟨dir, selected, kind, names⟩ := way
  exact ⟨dir, selected, kind, grows.names names⟩

theorem prepare_names (t : Tree) (dir : String) (l : Location) :
    (prepare t dir).1.node? l = t.node? l ∨
      (t.node? l = none ∧ (prepare t dir).1.node? l = some .directory ∧
        (prepare t dir).1.Names (Utf8.encode dir) l) := by
  unfold prepare
  split
  · exact .inl rfl
  · exact t.makeDirectories_names _ l

/-- The working directory is selected only after it was read, so it is there already. -/
theorem prepare_workingDir {t : Tree} {cwd : String} {p : Parameters} {dir : Dir}
    (selected : (Dir.select t cwd p).value = .ok dir) (kind : dir.kind = .workingDir) :
    prepare t dir.path = (t, none) := by
  rw [value_select] at selected
  split at selected
  · cases selected
    cases kind
  · obtain ⟨directory, _, read⟩ := detect_ok selected
    obtain ⟨q, reached⟩ := read (by simp [kind])
    rw [directory, kind]
    exact prepare_directory reached

theorem confined_resolve (t : Tree) (cwd : String) (p : Parameters) :
    Confined t (resolve t cwd p).value.2 (OnTheWay t cwd p (resolve t cwd p).value.2) none := by
  apply confined_of_made (grows_resolve t cwd p)
  intro l
  cases selected : (Dir.select t cwd p).value with
  | error e =>
    rw [resolve_unselected selected]
    exact .inl rfl
  | ok dir =>
    rw [tree_resolve selected]
    by_cases kind : dir.kind = .workingDir
    · rw [prepare_workingDir selected kind]
      exact .inl rfl
    · rcases prepare_names t dir.path l with same | ⟨nothing, there, names⟩
      · exact .inl same
      · exact .inr ⟨nothing, there, dir, selected, kind, names⟩

/-- The path of the output file leads to a regular file at a location. -/
def OutputAt (t : Tree) (cwd : String) (p : Parameters) (t' : Tree) (l : Location) : Prop :=
  ∃ dir held, (Dir.select t cwd p).value = .ok dir ∧
    t'.walk .find (Utf8.encode (join dir.path (fileName p).value)) = .ok (.node l (.file held))

/-- A write came to nothing before its file was open. -/
def Unopened (result : Except WriteError String) : Prop :=
  (∃ e, result = .error (.resolve e)) ∨ ∃ file f, result = .error (.create file f)

theorem confined_write (t : Tree) (cwd : String) (p : Parameters) (ids : List String) :
    ∃ file,
      Confined t (write t cwd p ids).value.2 (OnTheWay t cwd p (write t cwd p ids).value.2) file ∧
      (∀ l, file = some l → OutputAt t cwd p (write t cwd p ids).value.2 l) ∧
      (Unopened (write t cwd p ids).value.1 → file = none) := by
  have resolves := confined_resolve t cwd p
  rcases resolved : (resolve t cwd p).value with ⟨e | path, between⟩
  · rw [resolved] at resolves
    rw [write_unresolved resolved ids]
    exact ⟨none, resolves, by simp, fun _ => rfl⟩
  · rw [resolved] at resolves
    have tree := tree_write resolved ids
    rcases writeFile_cases between path ids with same | ⟨l, opens, written⟩
    · rw [same] at tree
      rw [tree]
      exact ⟨none, resolves, by simp, fun _ => rfl⟩
    · obtain ⟨dir, selected, _, joined⟩ := resolve_ok resolved
      have success : (write t cwd p ids).value = (.ok path, between.written l (content ids)) := by
        rw [value_write, resolved]
        dsimp only
        rw [written]
      rw [success]
      refine ⟨some l, ?_, ?_, ?_⟩
      · exact (resolves.written opens (content ids)).mono fun _ way =>
          way.grows (opens.grows_written (content ids))
      · intro l' same
        cases same
        exact ⟨dir, content ids, selected, joined ▸ opens.walk_written (content ids)⟩
      · rintro (⟨e, failed⟩ | ⟨file, f, failed⟩) <;> cases failed

end Output

namespace Recorder

open Output

/-- Resolving an output file makes directories on the way to the selected one, none if that is the
working directory, and touches no file. Writing the ids does no more than that, but for one file at
most, which the path of the output file leads to; and no file is touched if the output file could
not be resolved or created. Nothing that was there is lost or becomes something else. -/
theorem write_confined (r : Recorder) (t : Tree) (p : Parameters) :
    let after := (r.write t p).value
    (∀ cwd,
        Confined t (resolve t cwd p).value.2 (OnTheWay t cwd p (resolve t cwd p).value.2) none) ∧
      ∃ file, Confined t after.2 (fun l => ∃ cwd, r.base t = .ok cwd ∧ OnTheWay t cwd p after.2 l)
          file ∧
        (∀ l, file = some l → ∃ cwd, r.base t = .ok cwd ∧ OutputAt t cwd p after.2 l) ∧
        (Unopened after.1 → file = none) := by
  intro after
  refine ⟨fun cwd => confined_resolve t cwd p, ?_⟩
  cases based : r.base t with
  | error e =>
    have same : after = (.error (.resolve e), t) := by
      simp only [after, write, based, Logged.value_pure]
    rw [same]
    exact ⟨none, Confined.refl t _, by simp, fun _ => rfl⟩
  | ok cwd =>
    have same : after = (Output.write t cwd p r.ids).value := by
      simp only [after, write, based]
    obtain ⟨file, confined, output, unopened⟩ := confined_write t cwd p r.ids
    rw [same]
    refine ⟨file, confined.mono fun l way => ⟨cwd, rfl, way⟩, ?_, unopened⟩
    intro l chosen
    exact ⟨cwd, rfl, output l chosen⟩

end Recorder

end RunLedger
