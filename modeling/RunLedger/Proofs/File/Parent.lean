import RunLedger.Proofs.File.Made

set_option autoImplicit false

namespace RunLedger.File

open Text

namespace Walk

theorem within_concat {t : Tree} {k : Nat} {p q : Place} {s : List Step}
    (trail : Trail t.node? .find k p s (.directory q)) (u : Purpose) (n : Name) :
    ∃ left, within t u k p (t.parts p.live) (s ++ [.name n]) =
      within t u left q (t.parts q.live) [.name n] := by
  have other (rest : List Step) : rest ++ [.name n] ≠ [.slash] := by
    intro ending
    have last := congrArg List.getLast? ending
    rw [List.getLast?_concat] at last
    cases last
  have more (rest : List Step) : ¬ (u = .openFile ∧ rest ++ [.name n] = [.slash]) :=
    fun ending => other rest ending.2
  have before (rest : List Step) : isLast u (rest ++ [.name n]) = false := by
    simp [isLast, other rest]
  generalize reached : Spot.directory q = spot at trail
  induction trail with
  | done k p =>
    cases reached
    exact ⟨k, rfl⟩
  | here _ ih | slash _ ih =>
    obtain ⟨left, onward⟩ := ih reached
    refine ⟨left, ?_⟩
    rw [← onward, List.cons_append, within_eq_steps, steps]
  | up _ ih =>
    obtain ⟨left, onward⟩ := ih reached
    refine ⟨left, ?_⟩
    rw [← onward, List.cons_append, within_eq_steps, steps_up]
  | enter seeks found _ ih =>
    obtain ⟨left, onward⟩ := ih reached
    refine ⟨left, ?_⟩
    rw [← onward, List.cons_append, within_eq_steps, steps_name, if_neg (more _),
      if_neg (by simp [seeks.live]), if_neg (Nat.not_lt.mpr seeks.short), found]
  | @follow k p m rest spot target seeks found _ _ ih =>
    obtain ⟨left, onward⟩ := ih reached
    refine ⟨left, ?_⟩
    rw [← onward, List.cons_append, within_eq_steps, steps_name, if_neg (more _),
      if_neg (by simp [seeks.live]), if_neg (Nat.not_lt.mpr seeks.short), found]
    simp [beyond, before]
  | meet | miss => cases reached

end Walk

namespace Path

theorem textSteps_concat (a : Bool) (s : List Step) (n : Name) :
    textSteps ⟨a, s ++ [.name n]⟩ = textSteps ⟨a, s⟩ ++ [.name n] := by
  cases a with
  | true => simp [textSteps]
  | false =>
    cases s with
    | nil => rfl
    | cons step s => cases step <;> simp [textSteps]

theorem segments_ne_nil (bs : Bytes) : segments bs ≠ [] := by
  cases bs with
  | nil => exact List.cons_ne_nil _ _
  | cons b bs =>
    rw [segments]
    split
    · exact List.cons_ne_nil _ _
    · split <;> exact List.cons_ne_nil _ _

/-- A slash parts what is in front of it from what is behind it. -/
theorem segments_append (front back : Bytes) :
    segments (front ++ separator :: back) = segments front ++ segments back := by
  induction front with
  | nil => simp [segments]
  | cons b front ih =>
    rw [List.cons_append, segments, segments, ih]
    by_cases slash : b = separator
    · rw [if_pos slash, if_pos slash, List.cons_append]
    · rw [if_neg slash, if_neg slash]
      cases parts : segments front with
      | nil => exact absurd parts (segments_ne_nil front)
      | cons s ss => rfl

theorem segments_of_not_mem {n : Name} (plain : separator ∉ n) : segments n = [n] := by
  induction n with
  | nil => rfl
  | cons b n ih =>
    obtain ⟨other, rest⟩ := List.ne_and_not_mem_of_not_mem_cons plain
    rw [segments, if_neg (Ne.symm other), ih rest]

theorem ofBytes?_eq_ok_iff (bs : Bytes) (p : Path) :
    ofBytes? bs = .ok p ↔ p = ofBytes bs ∧ 0 ∉ bs ∧ bs ≠ [] ∧ bs.length ≤ lengthLimit := by
  unfold ofBytes?
  split
  · rename_i nul
    exact iff_of_false (by simp) fun taken => taken.2.1 nul
  · rename_i noNul
    split
    · rename_i empty
      exact iff_of_false (by simp) fun taken => taken.2.2.1 empty
    · rename_i filled
      split
      · rename_i long
        exact iff_of_false (by simp) fun taken => absurd taken.2.2.2 (Nat.not_le.mpr long)
      · rename_i short
        rw [Except.ok.injEq]
        exact ⟨fun same => ⟨same.symm, noNul, filled, Nat.not_lt.mp short⟩,
          fun taken => taken.1.symm⟩

/-- Bytes that are one name, which stands for itself. -/
structure IsName (n : Name) : Prop where
  single : separator ∉ n
  named : step? n = some (.name n)

theorem IsName.ne_nil {n : Name} (name : IsName n) : n ≠ [] := by
  intro empty
  have named := name.named
  rw [empty] at named
  cases named

/-- The names between the slashes of a path. -/
def named (bs : Bytes) : List Step :=
  (segments bs).filterMap step?

theorem named_append (front back : Bytes) :
    named (front ++ separator :: back) = named front ++ named back := by
  rw [named, segments_append, List.filterMap_append, named, named]

theorem IsName.named_eq {n : Name} (name : IsName n) : Path.named n = [.name n] := by
  rw [Path.named, segments_of_not_mem name.single]
  simp [name.named]

/-- The bytes of a path with a name behind it. -/
def withName (dir : Bytes) (n : Name) : Bytes :=
  if dir = [] ∨ dir.getLast? = some separator then dir ++ n else dir ++ separator :: n

theorem ofBytes_withName (dir : Bytes) {n : Name} (name : IsName n) :
    ofBytes (withName dir n) = ⟨(ofBytes dir).absolute, named dir ++ [.name n]⟩ := by
  have ending (front : Bytes) : (front ++ n).getLast? ≠ some separator := by
    intro last
    rw [List.getLast?_append, Option.or_eq_some_iff] at last
    rcases last with last | ⟨empty, _⟩
    · exact name.single (List.mem_of_getLast? last)
    · exact name.ne_nil (List.getLast?_eq_none_iff.mp empty)
  have path (front : Bytes) : ofBytes (front ++ separator :: n) =
      ⟨(front ++ separator :: n).head? = some separator, named front ++ [.name n]⟩ := by
    have last := ending (front ++ [separator])
    rw [List.append_assoc, List.singleton_append] at last
    rw [ofBytes, if_neg last, List.append_nil, ← named, named_append, name.named_eq]
  rw [withName]
  split
  · rename_i closed
    rcases closed with rfl | slash
    · have first : n.head? ≠ some separator := by
        intro first
        exact name.single (List.mem_of_head? first)
      have relative : decide (n.head? = some separator) = false := decide_eq_false first
      have last : n.getLast? ≠ some separator := ending []
      rw [List.nil_append, ofBytes, if_neg last, List.append_nil, ← named, name.named_eq, relative]
      rfl
    · obtain ⟨front, rfl⟩ := List.getLast?_eq_some_iff.mp slash
      have nothing : named [] = [] := rfl
      rw [List.append_assoc, List.singleton_append, path, named_append, nothing, List.append_nil]
      cases front <;> rfl
  · rename_i open_
    rw [path]
    cases dir with
    | nil => exact absurd (.inl rfl) open_
    | cons b dir => rfl

theorem steps_ofBytes (bs : Bytes) :
    (ofBytes bs).steps = named bs ++ if bs.getLast? = some separator then [.slash] else [] := rfl

theorem skips_named (bs : Bytes) : Skips (ofBytes bs).steps (named bs) := by
  rw [steps_ofBytes]
  split
  · have left : Skips (named bs ++ [.slash]) (named bs ++ []) :=
      (Skips.skip rfl .nil).append_left (named bs)
    rw [List.append_nil] at left
    exact left
  · rw [List.append_nil]
    exact .refl _

end Path

namespace Tree

/-- Where the path that a text spells leads, if the system takes it. -/
theorem walkPath_of_walk {t : Tree} {u : Purpose} {path : Bytes} {spot : Spot}
    (reached : t.walk u path = .ok spot) : t.walkPath u (Path.ofBytes path) = .ok spot := by
  rw [walk] at reached
  cases spelled : Path.ofBytes? path with
  | error f =>
    rw [spelled] at reached
    cases reached
  | ok p =>
    obtain ⟨rfl, -⟩ := (Path.ofBytes?_eq_ok_iff path p).mp spelled
    rw [spelled] at reached
    exact reached

theorem walk_of_spelled {t : Tree} {u : Purpose} {path : Bytes} {p : Path}
    (spelled : Path.ofBytes? path = .ok p) : t.walk u path = t.walkPath u (Path.ofBytes path) := by
  obtain ⟨rfl, -⟩ := (Path.ofBytes?_eq_ok_iff path p).mp spelled
  rw [walk, spelled]
  rfl

theorem isDirectoryPath_iff {t : Tree} {p : Path} :
    t.isDirectoryPath p = true ↔ ∃ q, t.walkPath .find p = .ok (.directory q) := by
  unfold isDirectoryPath
  split
  · rename_i q reached
    exact ⟨fun _ => ⟨q, reached⟩, fun _ => rfl⟩
  · rename_i other
    constructor
    · intro impossible
      cases impossible
    · rintro ⟨q, reached⟩
      exact absurd reached (other q)

theorem Grows.isDirectoryPath {t t' : Tree} (grows : t.Grows t') {p : Path}
    (there : t.isDirectoryPath p = true) : t'.isDirectoryPath p = true := by
  obtain ⟨q, reached⟩ := isDirectoryPath_iff.mp there
  exact isDirectoryPath_iff.mpr ⟨q, grows.walkPath_directory reached⟩

theorem isDirectoryPath_of_makeDirectory {t t' : Tree} {p : Path}
    (success : t.makeDirectory p = .ok t') : t'.isDirectoryPath p = true := by
  have step : Makes [p] t t' := makes_of_makeDirectory List.mem_cons_self success
  have grows := step.grows
  cases step with
  | @made p' l asked vacant =>
    obtain rfl : p' = p := List.mem_singleton.mp asked
    have trail := (t.walkPath_eq_ok_iff _ _ _).mp vacant
    have there : (t.set l .directory).node? l = some .directory := by
      rw [node?_set t _ trail.missing.1, if_pos rfl]
    refine isDirectoryPath_iff.mpr ⟨⟨l, 0⟩, (walkPath_eq_ok_iff _ _ _ _).mpr ?_⟩
    rw [grows.startOf]
    exact trail.made grows.keeps there

theorem isDirectoryPath_of_isMade {t : Tree} {p : Path} {f : Fault} (made : t.isMade p f = true) :
    t.isDirectoryPath p = true := by
  rw [isMade, Bool.and_eq_true] at made
  exact made.2

theorem isDirectoryPath_of_descend {t t' : Tree} {todo : List Path} {p : Path}
    (success : t.descend (todo ++ [p]) = (t', none)) : t'.isDirectoryPath p = true := by
  induction todo generalizing t with
  | nil =>
    rw [List.nil_append, descend] at success
    split at success
    · rename_i made
      cases success
      exact isDirectoryPath_of_makeDirectory made
    · split at success
      · rename_i made
        cases success
        exact isDirectoryPath_of_isMade made
      · cases success
  | cons first todo ih =>
    rw [List.cons_append, descend] at success
    split at success
    · exact ih success
    · split at success
      · exact ih success
      · cases success

theorem isDirectoryPath_of_climb {t between t' : Tree} {p : Path} {rest todo : List Path}
    (climbed : t.climb (p :: rest) = .ok (todo, between))
    (success : between.descend todo = (t', none)) : t'.isDirectoryPath p = true := by
  rw [climb] at climbed
  split at climbed
  · rename_i made
    cases climbed
    cases success
    exact isDirectoryPath_of_makeDirectory made
  · split at climbed
    · cases above : t.climb rest with
      | error f => rw [above] at climbed; cases climbed
      | ok result =>
        rw [above] at climbed
        cases climbed
        exact isDirectoryPath_of_descend success
    · split at climbed
      · rename_i made
        cases climbed
        cases success
        exact isDirectoryPath_of_isMade made
      · cases climbed

/-- Once a directory was made for a path, the path leads to one. Without a name it does so
anyway. -/
theorem isDirectoryPath_of_makeDirectories {t t' : Tree} {path : Bytes}
    (success : t.makeDirectories path = (t', none)) :
    t'.isDirectoryPath (Path.ofBytes path) = true := by
  by_cases nowhere : (Path.ofBytes path).textSteps = []
  · have skips := (Path.ofBytes path).skips_textSteps
    rw [nowhere] at skips
    refine isDirectoryPath_iff.mpr
      ⟨t'.startOf (Path.ofBytes path), (walkPath_eq_ok_iff _ _ _ _).mpr ?_⟩
    exact Trail.unskip skips (.done _ _)
  · rw [makeDirectories, Path.ancestors, if_neg nowhere] at success
    cases spelled : Path.ofBytes? path with
    | error f => simp [spelled] at success
    | ok p =>
      rw [spelled] at success
      dsimp only at success
      split at success
      · cases success
      · rename_i todo between climbed
        exact isDirectoryPath_of_climb climbed success

/-- A slash behind the names of a directory's path makes no difference. -/
theorem walkPath_named {t : Tree} {dir : Bytes} {q : Place}
    (reached : t.walkPath .find (Path.ofBytes dir) = .ok (.directory q)) :
    t.walkPath .find ⟨(Path.ofBytes dir).absolute, Path.named dir⟩ = .ok (.directory q) := by
  have trail := (t.walkPath_eq_ok_iff _ _ _).mp reached
  exact (t.walkPath_eq_ok_iff _ _ _).mpr (trail.skip (Path.skips_named dir))

/-- A path with a name behind it leads to what the name leads to in the directory. -/
theorem walkPath_withName {t : Tree} {dir : Bytes} {n : Name} (name : Path.IsName n) {q : Place}
    (reached : t.walkPath .find ⟨(Path.ofBytes dir).absolute, Path.named dir⟩ = .ok (.directory q))
    (u : Purpose) :
    ∃ left, t.walkPath u (Path.ofBytes (Path.withName dir n)) =
      Walk.within t u left q (t.parts q.live) [.name n] := by
  obtain ⟨left, onward⟩ := Walk.within_concat ((t.walkPath_eq_ok_iff _ _ _).mp reached) u n
  refine ⟨left, ?_⟩
  rw [Path.ofBytes_withName dir name, ← onward]
  rfl

end Tree

end RunLedger.File
