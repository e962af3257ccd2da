import RunLedger.Proofs.File.Inside
import RunLedger.Proofs.Output.Frame
import RunLedger.Proofs.Output.Parent

set_option autoImplicit false

namespace RunLedger.Output

open File Text

/-- What a tree became is seen again, except that its directories may list what is new in other
places. The old entries are listed in their old order. -/
structure Relists (old new seen : Tree) : Prop where
  cwd : seen.cwd = new.cwd
  node : ∀ l, seen.node? l = new.node? l
  same : ∀ q, (seen.listing q).Perm (new.listing q)
  ordered : ∀ q, (old.listing q).Sublist (seen.listing q)

theorem Relists.has {old new seen : Tree} (relists : Relists old new seen) (path : Bytes) :
    seen.has path = new.has path :=
  Tree.has_congr relists.node relists.cwd path

theorem exists_insert_of_sublist {α : Type} {l m : List α} {a : α} (kept : l.Sublist m)
    (more : m.Perm (a :: l)) :
    ∃ before behind, l = before ++ behind ∧ m = before ++ a :: behind := by
  induction kept with
  | slnil => exact absurd more.length_eq (by simp)
  | @cons l m b kept _ =>
    have same : l = m := kept.eq_of_length (by simpa using more.length_eq.symm)
    subst same
    have one : [b].Perm [a] := (List.perm_append_right_iff l).mp more
    cases List.singleton_perm_singleton.mp one
    exact ⟨[], l, rfl, rfl⟩
  | @cons_cons l m b kept ih =>
    have others : m.Perm (a :: l) := (more.trans (List.Perm.swap b a l)).cons_inv
    obtain ⟨before, behind, rfl, rfl⟩ := ih others
    exact ⟨b :: before, behind, rfl, rfl⟩

theorem ReachesBuildFile.insert {before behind : List (Name × Node)} {e : Name × Node}
    (reaches : ReachesBuildFile (before ++ behind)) (legible : IsLegible e) :
    ReachesBuildFile (before ++ e :: behind) := by
  induction before with
  | nil => exact (reachesBuildFile_cons e behind).mpr (.inr ⟨legible, reaches⟩)
  | cons b before ih =>
    rw [List.cons_append, reachesBuildFile_cons] at reaches ⊢
    exact reaches.imp_right fun ⟨first, others⟩ => ⟨first, ih others⟩

theorem prepare_again {t t' t'' : Tree} {dir : String} (filled : dir ≠ "")
    (prepared : prepare t dir = (t', none)) (relists : Relists t t' t'') :
    prepare t'' dir = (t'', none) := by
  rw [prepare]
  split
  · rfl
  · rename_i absent
    rw [relists.has, has_of_prepare filled prepared, not_not] at absent
    rw [Tree.makeDirectories, Path.ancestors, if_pos absent.1.textSteps_eq_nil]

/-- Preparing the directory of Gradle in a working directory that is there makes it alone, or
nothing. -/
theorem prepare_gradle {t t' : Tree} {cwd : String} {q : Place}
    (reached : t.walk .find (Utf8.encode cwd) = .ok (.directory q)) (live : q.removed = 0)
    (prepared : prepare t (join cwd Dir.gradleDir) = (t', none)) :
    t' = t ∨ (t.node? (Utf8.encode Dir.gradleDir :: q.live) = none ∧
      t' = t.set (Utf8.encode Dir.gradleDir :: q.live) .directory) := by
  have plain : IsFileName Dir.gradleDir := by decide
  rw [prepare] at prepared
  split at prepared
  · cases prepared
    exact .inl rfl
  · rw [encode_join cwd plain] at prepared
    have inside := Tree.walkPath_named (Tree.walkPath_of_walk reached)
    exact Tree.makeDirectories_withName plain.isName inside live (by decide) prepared

theorem not_mavenIn_of_prepare {t t' : Tree} {cwd : String} {q : Place}
    (reached : t.walk .find (Utf8.encode cwd) = .ok (.directory q)) (live : q.removed = 0)
    (prepared : prepare t (join cwd Dir.gradleDir) = (t', none)) (bare : ¬ MavenIn t cwd)
    (settled : ¬ t.Dangles (Utf8.encode (join cwd Dir.mavenFile))) : ¬ MavenIn t' cwd := by
  rcases prepare_gradle reached live prepared with rfl | ⟨vacant, rfl⟩
  · exact bare
  · have plain : IsFileName Dir.mavenFile := by decide
    have inside := Tree.walkPath_named (Tree.walkPath_of_walk reached)
    rw [MavenIn, encode_join cwd plain] at bare ⊢
    rw [encode_join cwd plain] at settled
    exact Tree.not_has_beside plain.isName inside live (by decide) (by decide) vacant bare settled

theorem reachesBuildFile_of_prepare {t t' t'' : Tree} {cwd : String} {q : Place}
    (reached : t.walk .find (Utf8.encode cwd) = .ok (.directory q)) (live : q.removed = 0)
    (prepared : prepare t (join cwd Dir.gradleDir) = (t', none)) (relists : Relists t t' t'')
    (reaches : ReachesBuildFile (t.listing q)) : ReachesBuildFile (t''.listing q) := by
  have same := relists.same q
  rcases prepare_gradle reached live prepared with rfl | ⟨vacant, rfl⟩
  · rw [← (relists.ordered q).eq_of_length same.length_eq.symm]
    exact reaches
  · obtain ⟨before, behind, old, new⟩ := Tree.listing_set_vacant live vacant .directory
    rw [new] at same
    have more : (t''.listing q).Perm ((Utf8.encode Dir.gradleDir, .directory) :: t.listing q) := by
      rw [old]
      exact same.trans List.perm_middle
    obtain ⟨before, behind, split, seen⟩ := exists_insert_of_sublist (relists.ordered q) more
    rw [split] at reaches
    rw [seen]
    exact reaches.insert (by decide)

theorem select_again {t t' t'' : Tree} {cwd : String} {p : Parameters} {dir : Dir}
    (settled : ¬ t.Dangles (Utf8.encode (join cwd Dir.mavenFile)))
    (selected : (Dir.select t cwd p).value = .ok dir)
    (prepared : prepare t dir.path = (t', none)) (relists : Relists t t' t'') :
    (Dir.select t'' cwd p).value = .ok dir := by
  have grows := grows_prepare t dir.path
  rw [prepared] at grows
  have again {q : Place} (reached : t.walk .find (Utf8.encode cwd) = .ok (.directory q)) :
      t''.walk .find (Utf8.encode cwd) = .ok (.directory q) :=
    (Tree.walk_eq_ok_congr relists.node relists.cwd _ _ _).mpr (grows.walk_directory reached)
  have rule : Applies (.ofTree t) cwd p (.ok dir) := applies_iff.mp selected
  have rule' : Applies (.ofTree t'') cwd p (.ok dir) := by
    cases rule with
    | custom named => exact .custom named
    | maven unset there =>
      refine .maven unset ?_
      rw [Dir.View.has_ofTree] at there ⊢
      rw [relists.has]
      exact grows.has there
    | gradle left listed found =>
      obtain ⟨q, reached, rfl⟩ := (readDir_ofTree_iff t _ _).mp listed
      have reaches : ReachesBuildFile (t.listing q) := (hasGradleFile_eq_true cwd _).mp found
      have live : q.removed = 0 := by
        by_contra gone
        rw [Tree.listing, if_neg gone] at reaches
        exact not_reachesBuildFile_nil reaches
      obtain ⟨unset, bare⟩ := left
      rw [Dir.View.has_ofTree, Bool.eq_false_iff] at bare
      have bare' := not_mavenIn_of_prepare reached live prepared bare settled
      have left' : LeftToEntries (.ofTree t'') cwd p := by
        refine ⟨unset, ?_⟩
        rw [Dir.View.has_ofTree, relists.has, Bool.eq_false_iff]
        exact bare'
      have reaches' := reachesBuildFile_of_prepare reached live prepared relists reaches
      exact .gradle left' ((readDir_ofTree_iff t'' _ _).mpr ⟨q, again reached, rfl⟩)
        ((hasGradleFile_eq_true cwd _).mpr reaches')
    | workingDir left listed passed =>
      obtain ⟨q, reached, rfl⟩ := (readDir_ofTree_iff t _ _).mp listed
      rw [prepare_directory reached] at prepared
      obtain rfl : t = t' := (Prod.mk.inj prepared).1
      obtain ⟨unset, bare⟩ := left
      have left' : LeftToEntries (.ofTree t'') cwd p := by
        refine ⟨unset, ?_⟩
        rw [Dir.View.has_ofTree] at bare ⊢
        rw [relists.has]
        exact bare
      have passed' : Dir.hasGradleFile cwd (t''.listing q) = .ok false := by
        have each := (hasGradleFile_eq_false cwd (t.listing q)).mp passed
        refine (hasGradleFile_eq_false cwd _).mpr fun e among => ?_
        exact each e ((relists.same q).mem_iff.mp among)
      exact .workingDir left' ((readDir_ofTree_iff t'' _ _).mpr ⟨q, again reached, rfl⟩) passed'
  exact rule'.selects

theorem relists_resolve (t : Tree) (cwd : String) (p : Parameters) :
    Relists t (resolve t cwd p).value.2 (resolve t cwd p).value.2 := by
  refine ⟨rfl, fun _ => rfl, fun _ => .refl _, fun q => ?_⟩
  cases selected : (Dir.select t cwd p).value with
  | error e =>
    rw [resolve_unselected selected]
  | ok dir =>
    rw [tree_resolve selected, prepare]
    split
    · exact List.Sublist.refl _
    · exact t.listing_sublist_makeDirectories _ q

/-- A path is resolved, where there is no link at the path of the Maven build file that leads to
nothing. Then something is at the path of the selected directory, unless this is the root by a path
that the system does not take for its length. Resolving again gives the same path and leaves the
tree as it is, also if a directory lists what is new in it in another place than at its end, as long
as the old entries are listed in their old order. -/
theorem resolve_again {t : Tree} {cwd path : String} {p : Parameters}
    (settled : ¬ t.Dangles (Utf8.encode (join cwd "pom.xml")))
    (success : (resolve t cwd p).value.1 = .ok path) :
    let t' := (resolve t cwd p).value.2
    (∃ dir, (Dir.select t cwd p).value = .ok dir ∧
        (t'.has (Utf8.encode dir.path) = true ↔ ¬ Overlong dir.path)) ∧
      (resolve t' cwd p).value = (.ok path, t') ∧
      ∀ t'', Relists t t' t'' → (resolve t'' cwd p).value = (.ok path, t'') := by
  intro t'
  have resolved : (resolve t cwd p).value = (.ok path, t') := Prod.ext success rfl
  obtain ⟨dir, selected, prepared, rfl⟩ := resolve_ok resolved
  have filled := path_ne_empty_of_select selected
  have again (t'' : Tree) (relists : Relists t t' t'') :
      (resolve t'' cwd p).value = (.ok (join dir.path (fileName p).value), t'') := by
    rw [value_resolve, select_again settled selected prepared relists]
    dsimp only
    rw [prepare_again filled prepared relists]
  exact ⟨⟨dir, selected, has_of_prepare filled prepared⟩, again t' (relists_resolve t cwd p), again⟩

/-- Two entries and no build output: the directory of Gradle is made, and found the second time. -/
theorem gradle_resolved_again :
    ¬ (listedAs textName buildName).Dangles (Utf8.encode (join "/p" "pom.xml")) ∧
      (resolve (listedAs textName buildName) "/p" nothingSet).value.1 =
        .ok "/p/build/unique-test-ids.txt" ∧
      (listedAs textName buildName).has (Utf8.encode "/p/build") = false ∧
      (resolve (resolve (listedAs textName buildName) "/p" nothingSet).value.2 "/p"
        nothingSet).value =
        (.ok "/p/build/unique-test-ids.txt",
          (resolve (listedAs textName buildName) "/p" nothingSet).value.2) := by
  have settled : ¬ (listedAs textName buildName).Dangles (Utf8.encode (join "/p" "pom.xml")) := by
    have nothing : (listedAs textName buildName).walk .make (Utf8.encode (join "/p" "pom.xml")) =
        .ok (.vacant [Utf8.encode "pom.xml", Utf8.encode "p"]) := by decide +kernel
    rintro ⟨⟨l, target, reached⟩, -⟩
    rw [nothing] at reached
    cases reached
  have success : (resolve (listedAs textName buildName) "/p" nothingSet).value.1 =
      .ok "/p/build/unique-test-ids.txt" := by decide +kernel
  exact ⟨settled, success, by decide +kernel, (resolve_again settled success).2.1⟩

/-- A path of slashes alone. -/
def slashes (n : Nat) : String :=
  String.ofList (List.replicate n '/')

theorem encode_slashes (n : Nat) : Utf8.encode (slashes n) = List.replicate n separator := by
  rw [Utf8.encode, slashes, String.toList_ofList]
  induction n with
  | zero => rfl
  | succ n ih =>
    have slash : String.utf8EncodeChar '/' = [separator] := by decide
    rw [List.replicate_succ, Utf8.encodeChars, List.flatMap_cons, slash, ← Utf8.encodeChars, ih]
    rfl

theorem stays_slashes {n : Nat} (some_there : n ≠ 0) :
    (Path.ofBytes (List.replicate n separator)).Stays := by
  have nameless (n : Nat) :
      (Path.segments (List.replicate n separator)).filterMap Path.step? = [] := by
    induction n with
    | zero => rfl
    | succ n ih =>
      rw [List.replicate_succ, Path.segments, if_pos rfl]
      exact ih
  refine ⟨by simp [Path.ofBytes, List.head?_replicate, some_there], ?_⟩
  intro step among
  rw [Path.ofBytes, nameless, List.nil_append] at among
  split at among
  · cases List.mem_singleton.mp among
    rfl
  · cases among

/-- Parameters that set a directory only. -/
def directed (dir : String) : Parameters :=
  (Dictionary.empty.insert Parameters.outputDirKey dir).parameters

theorem text?_directed (dir key : String) :
    (directed dir).text? key = if key = Parameters.outputDirKey then some dir else none :=
  Dictionary.get?_insert Dictionary.empty Parameters.outputDirKey dir key

theorem fileName_directed (dir : String) :
    (fileName (directed dir)).value = "unique-test-ids.txt" := by
  have other : Parameters.outputFileKey ≠ Parameters.outputDirKey := by decide
  simp [fileName, text?_directed, other, notBlank, defaultFileName]

/-- So many slashes that the system does not take them are resolved, because nothing has to be made
for them, but nothing is found at their path. -/
theorem resolve_slashes {n : Nat} (long : Path.lengthLimit < n) (t : Tree) (cwd : String) :
    (Dir.select t cwd (directed (slashes n))).value = .ok ⟨slashes n, .custom⟩ ∧
      (resolve t cwd (directed (slashes n))).value =
        (.ok (join (slashes n) "unique-test-ids.txt"), t) ∧
      t.has (Utf8.encode (slashes n)) = false := by
  have some_there : n ≠ 0 := Nat.ne_zero_of_lt long
  have overlong : Overlong (slashes n) := by
    rw [Overlong, encode_slashes, List.length_replicate]
    exact ⟨stays_slashes some_there, long⟩
  have named : SetsDir (directed (slashes n)) (slashes n) := by
    refine ⟨?_, '/', by simp [slashes, some_there], by decide⟩
    rw [text?_directed, if_pos rfl]
  have absolute : (slashes n).toList.head? = some '/' := by
    simp [slashes, List.head?_replicate, some_there]
  have selected : (Dir.select t cwd (directed (slashes n))).value = .ok ⟨slashes n, .custom⟩ := by
    have set := selectIn_of_set named (.ofTree t) cwd
    rw [join_absolute absolute] at set
    exact set
  have prepared : prepare t (slashes n) = (t, none) := by
    rw [prepare, overlong.not_has, if_neg Bool.false_ne_true, Tree.makeDirectories, Path.ancestors,
      if_pos overlong.1.textSteps_eq_nil]
  refine ⟨selected, ?_, overlong.not_has t⟩
  rw [value_resolve, selected]
  dsimp only
  rw [prepared, fileName_directed]

/-- Five thousand slashes are resolved where nothing is at the path of the Maven build file, and
nothing is found at them afterwards. -/
theorem slashes_resolved_without_directory :
    ¬ Tree.withDevices.Dangles (Utf8.encode (join "/" "pom.xml")) ∧
      (Dir.select .withDevices "/" (directed (slashes 5000))).value = .ok ⟨slashes 5000, .custom⟩ ∧
      (resolve .withDevices "/" (directed (slashes 5000))).value =
        (.ok (join (slashes 5000) "unique-test-ids.txt"), .withDevices) ∧
      Tree.withDevices.has (Utf8.encode (slashes 5000)) = false := by
  refine ⟨?_, resolve_slashes (by decide) .withDevices "/"⟩
  have nothing : Tree.withDevices.walk .make (Utf8.encode (join "/" "pom.xml")) =
      .ok (.vacant [Utf8.encode "pom.xml"]) := by decide +kernel
  rintro ⟨⟨l, target, reached⟩, -⟩
  rw [nothing] at reached
  cases reached

end RunLedger.Output
