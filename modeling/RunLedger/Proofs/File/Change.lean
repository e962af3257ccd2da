import RunLedger.Proofs.File.Growth

set_option autoImplicit false

namespace RunLedger.File.Tree

open Text Relation

/-- One directory is made, at the vacant end of one of the paths. -/
inductive Makes (paths : List Path) : Tree → Tree → Prop
  | made {t : Tree} {p : Path} {l : Location} (asked : p ∈ paths)
      (vacant : t.walkPath .make p = .ok (.vacant l)) : Makes paths t (t.set l .directory)

theorem makes_of_makeDirectory {t t' : Tree} {p : Path} {paths : List Path} (asked : p ∈ paths)
    (success : t.makeDirectory p = .ok t') : Makes paths t t' := by
  unfold makeDirectory at success
  cases reached : t.walkPath .make p with
  | error f => rw [reached] at success; cases success
  | ok spot =>
    rw [reached] at success
    cases spot with
    | directory q => cases success
    | node l n => cases success
    | vacant l =>
      cases success
      exact .made asked reached

theorem climb_makes {t t' : Tree} {ps todo paths : List Path} (asked : ps ⊆ paths)
    (success : t.climb ps = .ok (todo, t')) :
    ReflTransGen (Makes paths) t t' ∧ todo ⊆ paths := by
  induction ps generalizing todo with
  | nil =>
    cases success
    exact ⟨.refl, List.nil_subset _⟩
  | cons p rest ih =>
    obtain ⟨first, others⟩ := List.cons_subset.mp asked
    unfold climb at success
    split at success
    · rename_i made
      cases success
      exact ⟨.single (makes_of_makeDirectory first made), List.nil_subset _⟩
    · split at success
      · cases above : t.climb rest with
        | error f => rw [above] at success; cases success
        | ok result =>
          rw [above] at success
          cases success
          obtain ⟨steps, left⟩ := ih others above
          exact ⟨steps, List.append_subset.mpr ⟨left, List.cons_subset.mpr
            ⟨first, List.nil_subset _⟩⟩⟩
      · split at success
        · cases success
          exact ⟨.refl, List.nil_subset _⟩
        · cases success

theorem descend_makes {ps paths : List Path} (asked : ps ⊆ paths) (t : Tree) :
    ReflTransGen (Makes paths) t (t.descend ps).1 := by
  induction ps generalizing t with
  | nil => exact .refl
  | cons p rest ih =>
    obtain ⟨first, others⟩ := List.cons_subset.mp asked
    unfold descend
    split
    · rename_i made
      exact .head (makes_of_makeDirectory first made) (ih others _)
    · split
      · exact ih others t
      · exact .refl

/-- Making a directory makes it and those around it, one after the other, and does nothing else. -/
theorem makeDirectories_makes (t : Tree) (path : Bytes) :
    ReflTransGen (Makes (Path.ofBytes path).ancestors) t (t.makeDirectories path).1 := by
  unfold makeDirectories
  split
  · exact .refl
  · exact .refl
  · split
    · exact .refl
    · rename_i climbed
      obtain ⟨steps, left⟩ := climb_makes (List.Subset.refl _) climbed
      exact steps.trans (descend_makes left _)

theorem Makes.grows {paths : List Path} {t t' : Tree} (step : Makes paths t t') : t.Grows t' := by
  cases step with
  | made _ vacant =>
    obtain ⟨named, nothing⟩ := ((t.walkPath_eq_ok_iff _ _ _).mp vacant).missing
    exact grows_set_vacant named nothing .directory

theorem grows_makeDirectories (t : Tree) (path : Bytes) :
    t.Grows (t.makeDirectories path).1 := by
  have steps := t.makeDirectories_makes path
  generalize (t.makeDirectories path).1 = after at steps
  induction steps with
  | refl => exact .refl t
  | tail _ step ih => exact ih.trans step.grows

theorem listing_sublist_makeDirectories (t : Tree) (path : Bytes) (p : Place) :
    (t.listing p).Sublist ((t.makeDirectories path).1.listing p) := by
  have steps := t.makeDirectories_makes path
  generalize (t.makeDirectories path).1 = after at steps
  induction steps with
  | refl => exact List.Sublist.refl _
  | tail _ step ih =>
    cases step with
    | made _ vacant =>
      have nothing := ((walkPath_eq_ok_iff _ _ _ _).mp vacant).missing.2
      exact ih.trans (listing_sublist_set nothing .directory p)

/-- A location that a path leads to when it is opened as a file: nothing or a file is there. -/
def Opens (t : Tree) (path : Bytes) (l : Location) : Prop :=
  t.walk .openFile path = .ok (.vacant l) ∨
    ∃ old, t.walk .openFile path = .ok (.node l (.file old))

/-- A file is opened where nothing or a file is, and emptied; a device is opened as it is. -/
theorem create_ok {t t' : Tree} {path : Bytes} {h : Handle}
    (success : t.create path = .ok (h, t')) :
    (∃ l, h = .file l ∧ t.Opens path l ∧ t' = t.set l (.file [])) ∨
      ∃ d l, h = .device d ∧ t.walk .openFile path = .ok (.node l (.device d)) ∧ t' = t := by
  unfold create at success
  cases reached : t.walk .openFile path with
  | error f => rw [reached] at success; cases success
  | ok spot =>
    rw [reached] at success
    cases spot with
    | directory p => cases success
    | vacant l =>
      cases success
      exact .inl ⟨l, rfl, .inl reached, rfl⟩
    | node l n =>
      obtain ⟨_, _, trail⟩ := (t.walk_eq_ok_iff _ _ _).mp reached
      cases n with
      | directory => cases trail.found.2.2
      | link target => cases trail.found.2.2
      | file old =>
        cases success
        exact .inl ⟨l, rfl, .inr ⟨old, reached⟩, rfl⟩
      | device d =>
        cases success
        exact .inr ⟨d, l, rfl, rfl, rfl⟩

/-- The trail to an opened file, with what was there before. -/
theorem Opens.trail {t : Tree} {path : Bytes} {l : Location} (opens : t.Opens path l) :
    ∃ p spot, Path.ofBytes? path = .ok p ∧
      Trail t.node? .openFile Walk.linkLimit (t.startOf p) p.steps spot ∧
      (spot = .vacant l ∧ t.node? l = none ∨
        ∃ old, spot = .node l (.file old) ∧ t.node? l = some (.file old)) := by
  rcases opens with reached | ⟨old, reached⟩
  · obtain ⟨p, spelled, trail⟩ := (t.walk_eq_ok_iff _ _ _).mp reached
    exact ⟨p, _, spelled, trail, .inl ⟨rfl, trail.missing.2⟩⟩
  · obtain ⟨p, spelled, trail⟩ := (t.walk_eq_ok_iff _ _ _).mp reached
    exact ⟨p, _, spelled, trail, .inr ⟨old, rfl, trail.found.2.1⟩⟩

theorem Opens.named {t : Tree} {path : Bytes} {l : Location} (opens : t.Opens path l) : l ≠ [] := by
  obtain ⟨_, _, _, trail, ⟨rfl, _⟩ | ⟨_, rfl, _⟩⟩ := opens.trail
  · exact trail.missing.1
  · exact trail.found.1

theorem Opens.takes {t : Tree} {path : Bytes} {l : Location} (opens : t.Opens path l)
    (content : Bytes) (old : Node) (found : t.node? l = some old) :
    old.Becomes (.file content) := by
  obtain ⟨_, _, _, _, ⟨_, nothing⟩ | ⟨before, _, file⟩⟩ := opens.trail
  · rw [nothing] at found
    cases found
  · rw [file] at found
    cases found
    exact .rewritten before content

/-- The tree once the file at a location was opened, which empties it, and then written. -/
def written (t : Tree) (l : Location) (content : Bytes) : Tree :=
  (t.set l (.file [])).set l (.file content)

/-- A file that was opened and written is at its location, and emptying it first left no mark. -/
theorem node?_written (t : Tree) {l : Location} (named : l ≠ []) (content : Bytes) (l' : Location) :
    (t.written l content).node? l' = if l' = l then some (.file content) else t.node? l' := by
  rw [written, node?_set _ _ named, node?_set _ _ named]
  split <;> rfl

theorem Opens.grows_written {t : Tree} {path : Bytes} {l : Location} (opens : t.Opens path l)
    (content : Bytes) : t.Grows (t.written l content) := by
  have emptied : t.Grows (t.set l (.file [])) := t.grows_set opens.named _ (opens.takes [])
  apply emptied.trans
  apply grows_set _ opens.named
  intro old found
  rw [node?_set _ _ opens.named, if_pos rfl] at found
  cases found
  exact .rewritten [] content

theorem Opens.walk_written {t : Tree} {path : Bytes} {l : Location} (opens : t.Opens path l)
    (content : Bytes) :
    (t.written l content).walk .find path = .ok (.node l (.file content)) := by
  have grows := opens.grows_written content
  have found : (t.written l content).node? l = some (.file content) := by
    rw [node?_written t opens.named, if_pos rfl]
  obtain ⟨p, spot, spelled, trail, before⟩ := opens.trail
  refine (walk_eq_ok_iff _ _ _ _).mpr ⟨p, spelled, ?_⟩
  rw [grows.startOf]
  rcases before with ⟨rfl, _⟩ | ⟨old, rfl, _⟩
  · exact trail.settle (by decide) grows.keeps (.vacant found rfl)
  · exact trail.settle (by decide) grows.keeps (.node found rfl _)

theorem walk_device {t : Tree} {path : Bytes} {l : Location} {d : Device}
    (reached : t.walk .openFile path = .ok (.node l (.device d))) :
    t.walk .find path = .ok (.node l (.device d)) := by
  obtain ⟨p, spelled, trail⟩ := (t.walk_eq_ok_iff _ _ _).mp reached
  refine (t.walk_eq_ok_iff _ _ _).mpr ⟨p, spelled, ?_⟩
  exact trail.settle (by decide) (Grows.refl t).keeps (.node trail.found.2.1 rfl _)

/-- The content of the regular file that a path leads to. -/
def fileAt? (t : Tree) (path : Bytes) : Option Bytes :=
  match t.walk .find path with
  | .ok (.node _ (.file content)) => some content
  | _ => none

/-- A path leads to a regular file that has exactly the content, or to a device, which keeps
nothing. -/
def Holds (t : Tree) (path content : Bytes) : Prop :=
  (∃ l, t.walk .find path = .ok (.node l (.file content))) ∨
    ∃ l d, t.walk .find path = .ok (.node l (.device d))

theorem Holds.fileAt? {t : Tree} {path content held : Bytes} (holds : t.Holds path content)
    (regular : t.fileAt? path = some held) : held = content := by
  unfold Tree.fileAt? at regular
  rcases holds with ⟨l, reached⟩ | ⟨l, d, reached⟩
  · rw [reached] at regular
    exact (Option.some.inj regular).symm
  · rw [reached] at regular
    cases regular

end RunLedger.File.Tree
