import RunLedger.Proofs.File.Root

set_option autoImplicit false

namespace RunLedger.File

open Text

namespace Walk

/-- In a directory that is there, a walk can only refuse a name for its length, unless it is a
link's. -/
theorem within_name {t : Tree} {k : Nat} {q : Place} {n : Name} {f : Fault} (live : q.removed = 0)
    (plain : ∀ target, t.node? (n :: q.live) ≠ some (.link target))
    (failed : within t .openFile k q (t.parts q.live) [.name n] = .error f) : f = .nameTooLong := by
  rw [within_eq_steps, steps_name, if_neg (by simp), if_neg (by simp [live])] at failed
  split at failed
  · exact (Except.error.inj failed).symm
  · split at failed
    · cases failed
    · cases failed
    · rename_i target found
      exact absurd found (plain target)
    · cases failed

end Walk

namespace Path

/-- The bytes of a path from its last one, less the slashes and dots that it ends with. The slash of
the root stays, and so does the dot of a path that begins with it. -/
def idleDropped : Bytes → Bytes
  | [] => []
  | b :: r =>
    if b = separator ∧ r ≠ [] then idleDropped r
    else if b = 0x2E ∧ r.head? = some separator then idleDropped r
    else b :: r

/-- The text of the directory around the last name of a path. -/
def around (bs : Bytes) : Bytes :=
  (idleDropped (bs.reverse.dropWhile (· != separator))).reverse

theorem idleDropped_suffix (r : Bytes) : idleDropped r <:+ r := by
  induction r with
  | nil => exact List.suffix_rfl
  | cons b r ih =>
    rw [idleDropped]
    split
    · exact ih.trans (List.suffix_cons b r)
    · split
      · exact ih.trans (List.suffix_cons b r)
      · exact List.suffix_rfl

theorem idleDropped_ne_nil {r : Bytes} (filled : r ≠ []) : idleDropped r ≠ [] := by
  induction r with
  | nil => exact absurd rfl filled
  | cons b r ih =>
    rw [idleDropped]
    split
    · rename_i slash
      exact ih slash.2
    · split
      · rename_i dot
        exact ih fun empty => by simp [empty] at dot
      · exact List.cons_ne_nil b r

theorem named_slash (bs : Bytes) : named (bs ++ [separator]) = named bs := by
  have nothing : named [] = [] := rfl
  rw [named_append, nothing, List.append_nil]

theorem named_dot (bs : Bytes) : named (bs ++ [separator, 0x2E]) = named bs ++ [.here] :=
  named_append bs [0x2E]

/-- What is dropped only stays in place, and the beginning is kept. -/
theorem alike_idleDropped (r : Bytes) :
    (idleDropped r).getLast? = r.getLast? ∧
      Alike (named (idleDropped r).reverse) (named r.reverse) := by
  induction r with
  | nil => exact ⟨rfl, .nil⟩
  | cons b r ih =>
    rw [idleDropped]
    split
    · rename_i slash
      obtain ⟨rfl, filled⟩ := slash
      rw [List.reverse_cons, named_slash, ih.1]
      exact ⟨(List.getLast?_cons_of_ne_nil filled).symm, ih.2⟩
    · split
      · rename_i dot
        obtain ⟨rfl, next⟩ := dot
        obtain ⟨r, rfl⟩ := List.head?_eq_some_iff.mp next
        have kept := ih.2
        rw [List.reverse_cons, named_slash] at kept
        have more : named (0x2E :: separator :: r).reverse = named r.reverse ++ [.here] := by
          rw [List.reverse_cons, List.reverse_cons, List.append_assoc, List.singleton_append,
            named_dot]
        rw [more, ih.1]
        exact ⟨rfl, kept.concat rfl⟩
      · exact ⟨rfl, (Skips.refl _).alike⟩

theorem head?_idleDropped (bs : Bytes) : (idleDropped bs.reverse).reverse.head? = bs.head? := by
  rw [List.head?_reverse, (alike_idleDropped bs.reverse).1, List.getLast?_reverse]

/-- Without a name behind it, the directory's path is left, less what is idle. -/
theorem around_withName {dir : Bytes} {n : Name} (name : IsName n) (filled : dir ≠ []) :
    around (withName dir n) = (idleDropped dir.reverse).reverse := by
  have past (rest : Bytes) : (n.reverse ++ rest).dropWhile (· != separator) =
      rest.dropWhile (· != separator) := by
    apply List.dropWhile_append_of_pos
    intro b among
    have other : b ≠ separator := by
      rintro rfl
      exact name.single (List.mem_reverse.mp among)
    simpa using other
  rw [around, withName]
  split
  · rename_i closed
    obtain ⟨front, rfl⟩ := List.getLast?_eq_some_iff.mp (closed.resolve_left filled)
    rw [List.reverse_append, past, List.reverse_append, List.reverse_singleton,
      List.singleton_append, List.dropWhile_cons_of_neg (by simp)]
  · rw [List.reverse_append, List.reverse_cons, List.append_assoc, past, List.singleton_append,
      List.dropWhile_cons_of_neg (by simp), idleDropped, if_pos ⟨rfl, by simpa using filled⟩]

theorem eq_dot_of_stays {part : Bytes} (filled : part ≠ [])
    (still : ∀ step ∈ [part].filterMap step?, step.stays = true) : part = [0x2E] := by
  by_cases other : part = [0x2E]
  · exact other
  have moves : ∃ step, step? part = some step ∧ step.stays = false := by
    unfold step?
    rw [if_neg filled, if_neg other]
    split
    · exact ⟨.up, rfl, rfl⟩
    · exact ⟨.name part, rfl, rfl⟩
  obtain ⟨step, named, moves⟩ := moves
  have stays := still step (by simp [named])
  rw [moves] at stays
  cases stays

/-- A path that stays in place, has a slash in it and does not end with one ends with a dot. -/
theorem ends_with_dot_of_still {b : UInt8} {r : Bytes} (other : b ≠ separator)
    (among : separator ∈ r) (still : ∀ step ∈ named (r.reverse ++ [b]), step.stays = true) :
    b = 0x2E ∧ ∃ back, r = separator :: back := by
  obtain ⟨front, back, rfl, plain⟩ := List.eq_append_cons_of_mem among
  have single : separator ∉ front.reverse ++ [b] := by simp [plain, Ne.symm other]
  have parts : named ((front ++ separator :: back).reverse ++ [b]) =
      named back.reverse ++ [front.reverse ++ [b]].filterMap step? := by
    rw [← segments_of_not_mem single, ← named, ← named_append]
    simp
  rw [parts] at still
  have dot : front.reverse ++ [b] = [0x2E] := by
    apply eq_dot_of_stays (List.append_ne_nil_of_right_ne_nil _ (List.cons_ne_nil b []))
    intro step there
    exact still step (List.mem_append_right _ there)
  cases front with
  | nil => exact ⟨by simpa using dot, back, rfl⟩
  | cons c front =>
    have length := congrArg List.length dot
    simp at length

theorem idleDropped_of_still {r : Bytes} (first : r.getLast? = some separator)
    (still : ∀ step ∈ named r.reverse, step.stays = true) : idleDropped r = [separator] := by
  induction r with
  | nil => cases first
  | cons b r ih =>
    rw [List.reverse_cons] at still
    by_cases slash : b = separator
    · subst slash
      rw [named_slash] at still
      cases r with
      | nil => rfl
      | cons c r =>
        rw [idleDropped, if_pos ⟨rfl, List.cons_ne_nil c r⟩]
        exact ih (by simpa using first) still
    · have among : separator ∈ b :: r := List.mem_of_getLast? first
      obtain ⟨rfl, back, rfl⟩ := ends_with_dot_of_still slash
        ((List.mem_cons.mp among).resolve_left (Ne.symm slash)) still
      rw [idleDropped, if_neg (by simp [separator]), if_pos ⟨rfl, rfl⟩]
      apply ih (by simpa using first)
      intro step there
      apply still
      rw [List.reverse_cons, List.append_assoc, List.singleton_append, named_dot]
      rw [List.reverse_cons, named_slash] at there
      exact List.mem_append_left _ there

theorem idleDropped_of_stays {bs : Bytes} (stays : (ofBytes bs).Stays) :
    idleDropped bs.reverse = [separator] := by
  apply idleDropped_of_still
  · rw [List.getLast?_reverse]
    simpa [ofBytes] using stays.1
  · rw [List.reverse_reverse]
    exact fun step among => stays.2 step (List.mem_append_left _ among)

theorem spelled_idleDropped {bs : Bytes} {p : Path} (spelled : ofBytes? bs = .ok p) :
    ∃ p', ofBytes? (idleDropped bs.reverse).reverse = .ok p' := by
  obtain ⟨-, noNul, filled, short⟩ := (ofBytes?_eq_ok_iff bs p).mp spelled
  have suffix := idleDropped_suffix bs.reverse
  refine ⟨_, (ofBytes?_eq_ok_iff _ _).mpr ⟨rfl, ?_, ?_, ?_⟩⟩
  · intro nul
    exact noNul (List.mem_reverse.mp (suffix.mem (List.mem_reverse.mp nul)))
  · intro empty
    exact idleDropped_ne_nil (List.reverse_ne_nil_iff.mpr filled) (List.reverse_eq_nil_iff.mp empty)
  · have shorter := suffix.length_le
    rw [List.length_reverse] at shorter ⊢
    exact Nat.le_trans shorter short

end Path

namespace Tree

/-- A directory is at a path. -/
def HasDirectory (t : Tree) (path : Bytes) : Prop :=
  ∃ q, t.walk .find path = .ok (.directory q)

instance (t : Tree) (path : Bytes) : Decidable (t.HasDirectory path) :=
  match reached : t.walk .find path with
  | .ok (.directory q) => .isTrue ⟨q, reached⟩
  | .ok (.node _ _) | .ok (.vacant _) | .error _ =>
    .isFalse (by rintro ⟨q, there⟩; rw [reached] at there; cases there)

theorem spelled_of_has {t : Tree} {path : Bytes} (there : t.has path = true) :
    ∃ p, Path.ofBytes? path = .ok p := by
  have found : ∃ s, t.walk .find path = .ok s := by
    rcases (t.has_iff _).mp there with ⟨q, reached⟩ | ⟨l, n, reached⟩
    · exact ⟨_, reached⟩
    · exact ⟨_, reached⟩
  obtain ⟨s, reached⟩ := found
  obtain ⟨p, spelled, -⟩ := (t.walk_eq_ok_iff _ _ _).mp reached
  exact ⟨p, spelled⟩

/-- On the way to open a file a directory is missing: a name that has to be a directory's is not
there or is something else's, or the directory that is asked for a name was removed. -/
def LacksDirectory (t : Tree) (path : Bytes) : Prop :=
  t.walk .openFile path = .error .noEntry ∨ t.walk .openFile path = .error .notDirectory

/-- The way to open a file by a name in a directory that is there does not lack one, whatever else
may be wrong with the name. A link of this name is another matter. -/
theorem not_lacksDirectory {t : Tree} {dir : Bytes} {n : Name} (name : Path.IsName n) {q : Place}
    (reached : t.walkPath .find ⟨(Path.ofBytes dir).absolute, Path.named dir⟩ = .ok (.directory q))
    (live : q.removed = 0) (plain : ∀ target, t.node? (n :: q.live) ≠ some (.link target)) :
    ¬ t.LacksDirectory (Path.withName dir n) := by
  have filled : Path.withName dir n ≠ [] := by
    intro empty
    have path := Path.ofBytes_withName dir name
    rw [empty] at path
    exact List.append_ne_nil_of_right_ne_nil _ (List.cons_ne_nil _ _)
      (congrArg Path.steps path).symm
  have refused {f : Fault} (failed : t.walk .openFile (Path.withName dir n) = .error f) :
      f = .nulInPath ∨ f = .nameTooLong := by
    obtain ⟨left, onward⟩ := walkPath_withName name reached .openFile
    rw [Tree.walk, Path.ofBytes?, if_neg filled] at failed
    split at failed
    · exact .inl (Except.error.inj failed).symm
    · split at failed
      · exact .inr (Except.error.inj failed).symm
      · exact .inr (Walk.within_name live plain (onward.symm.trans failed))
  rintro (missing | other)
  · exact absurd (refused missing) (by decide)
  · exact absurd (refused other) (by decide)

/-- Where the path of a directory leads, there the text leads that is around a name behind it, if
the system takes this text. -/
theorem walk_around {t : Tree} {dir : Bytes} {n : Name} (name : Path.IsName n) {q : Place}
    (filled : dir ≠ []) (reached : t.walkPath .find (Path.ofBytes dir) = .ok (.directory q))
    {p : Path} (spelled : Path.ofBytes? (Path.around (Path.withName dir n)) = .ok p) :
    t.walk .find (Path.around (Path.withName dir n)) = .ok (.directory q) := by
  rw [Path.around_withName name filled] at spelled ⊢
  have trail := (t.walkPath_eq_ok_iff _ _ _).mp (walkPath_named reached)
  have alike := (Path.alike_idleDropped dir.reverse).2
  rw [List.reverse_reverse] at alike
  have absolute : (Path.ofBytes (Path.idleDropped dir.reverse).reverse).absolute =
      (Path.ofBytes dir).absolute := by
    rw [Path.ofBytes, Path.ofBytes, Path.head?_idleDropped]
  rw [walk_of_spelled spelled]
  refine (t.walkPath_eq_ok_iff _ _ _).mpr (Trail.unskip (Path.skips_named _) ?_)
  rw [startOf, absolute]
  exact trail.alike alike

end Tree

end RunLedger.File
