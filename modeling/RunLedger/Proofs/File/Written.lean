import RunLedger.Proofs.File.Change

set_option autoImplicit false

namespace RunLedger.File

open Text

/-- What the end of a walk was before a file was put at a location, and what it is then. -/
inductive Overtaken (l : Location) (content : Bytes) : Spot → Spot → Prop
  | elsewhere (spot : Spot) : Overtaken l content spot spot
  | made : Overtaken l content (.vacant l) (.node l (.file content))
  | rewritten (old : Bytes) : Overtaken l content (.node l (.file old)) (.node l (.file content))

/-- A trail in which a file was put at a location is a trail without it, up to what its end is. -/
theorem Trail.before {look look' : Location → Option Node} {l : Location} {content : Bytes}
    (elsewhere : ∀ l', l' ≠ l → look' l' = look l') (put : look' l = some (.file content))
    (takes : ∀ old, look l = some old → old.Becomes (.file content)) {k : Nat} {p : Place}
    {s : List Step} {after : Spot} (trail : Trail look' .find k p s after) :
    ∃ spot, Trail look .find k p s spot ∧ Overtaken l content spot after := by
  have on_the_way {l' : Location} {n : Node} (found : look' l' = some n)
      (other : n ≠ .file content) : look l' = some n := by
    have aside : l' ≠ l := by
      intro here
      rw [here, put] at found
      exact other (Option.some.inj found).symm
    rw [← elsewhere l' aside, found]
  induction trail with
  | done k p => exact ⟨_, .done k p, .elsewhere _⟩
  | here _ ih =>
    obtain ⟨spot, trail, ending⟩ := ih
    exact ⟨spot, .here trail, ending⟩
  | slash _ ih =>
    obtain ⟨spot, trail, ending⟩ := ih
    exact ⟨spot, .slash trail, ending⟩
  | up _ ih =>
    obtain ⟨spot, trail, ending⟩ := ih
    exact ⟨spot, .up trail, ending⟩
  | enter seeks found _ ih =>
    obtain ⟨spot, trail, ending⟩ := ih
    exact ⟨spot, .enter seeks (on_the_way found (by simp)) trail, ending⟩
  | follow seeks found through _ ih =>
    obtain ⟨spot, trail, ending⟩ := ih
    exact ⟨spot, .follow seeks (on_the_way found (by simp)) through trail, ending⟩
  | @meet k p n rest node seeks found last stops =>
    by_cases here : n :: p.live = l
    · rw [here] at found
      have same : node = .file content := Option.some.inj (found.symm.trans put)
      rw [here, same]
      cases held : look l with
      | none =>
        have missed : Trail look .find k p (.name n :: rest) (.vacant (n :: p.live)) :=
          .miss seeks (here ▸ held) last
        rw [here] at missed
        exact ⟨_, missed, .made⟩
      | some old =>
        obtain ⟨bytes, rfl⟩ : ∃ bytes, old = .file bytes := by
          cases takes old held with
          | same => exact ⟨content, rfl⟩
          | rewritten bytes _ => exact ⟨bytes, rfl⟩
        have met : Trail look .find k p (.name n :: rest) (.node (n :: p.live) (.file bytes)) :=
          .meet seeks (here ▸ held) last rfl
        rw [here] at met
        exact ⟨_, met, .rewritten bytes⟩
    · rw [elsewhere _ here] at found
      exact ⟨_, .meet seeks found last stops, .elsewhere _⟩
  | @miss k p n rest seeks nothing last =>
    have aside : n :: p.live ≠ l := by
      intro here
      rw [here, put] at nothing
      cases nothing
    rw [elsewhere _ aside] at nothing
    exact ⟨_, .miss seeks nothing last, .elsewhere _⟩

namespace Tree

theorem Opens.vacant_iff {t : Tree} {path : Bytes} {l : Location} (opens : t.Opens path l) :
    t.node? l = none ↔ t.walk .openFile path = .ok (.vacant l) := by
  constructor
  · intro nothing
    rcases opens with reached | ⟨old, reached⟩
    · exact reached
    · obtain ⟨_, _, trail⟩ := (t.walk_eq_ok_iff _ _ _).mp reached
      rw [trail.found.2.1] at nothing
      cases nothing
  · intro reached
    obtain ⟨_, _, trail⟩ := (t.walk_eq_ok_iff _ _ _).mp reached
    exact trail.missing.2

theorem Opens.location_eq {t : Tree} {path : Bytes} {l l' : Location} (opens : t.Opens path l)
    (reached : t.walk .openFile path = .ok (.vacant l')) : l' = l := by
  rcases opens with vacant | ⟨old, file⟩
  · rw [vacant] at reached
    cases reached
    rfl
  · rw [file] at reached
    cases reached

theorem Opens.walk_before {t : Tree} {path : Bytes} {l : Location} (opens : t.Opens path l)
    {content other : Bytes} {after : Spot}
    (reached : (t.written l content).walk .find other = .ok after) :
    ∃ spot, t.walk .find other = .ok spot ∧ Overtaken l content spot after := by
  obtain ⟨p, spelled, trail⟩ := (walk_eq_ok_iff _ _ _ _).mp reached
  rw [(opens.grows_written content).startOf] at trail
  have elsewhere (l' : Location) (aside : l' ≠ l) :
      (t.written l content).node? l' = t.node? l' := by
    rw [node?_written t opens.named, if_neg aside]
  have put : (t.written l content).node? l = some (.file content) := by
    rw [node?_written t opens.named, if_pos rfl]
  obtain ⟨spot, before, ending⟩ := trail.before elsewhere put (opens.takes content)
  exact ⟨spot, (walk_eq_ok_iff _ _ _ _).mpr ⟨p, spelled, before⟩, ending⟩

/-- A file that is written brings something to the paths that lead to its vacant location, and to no
other path. -/
theorem Opens.has_written_iff {t : Tree} {path : Bytes} {l : Location} (opens : t.Opens path l)
    (content other : Bytes) :
    (t.written l content).has other = true ↔ t.has other = true ∨
      (t.walk .openFile path = .ok (.vacant l) ∧ t.walk .find other = .ok (.vacant l)) := by
  have grows := opens.grows_written content
  constructor
  · intro there
    cases reached : (t.written l content).walk .find other with
    | error f => rw [has, reached] at there; cases there
    | ok after =>
      obtain ⟨spot, led, ending⟩ := opens.walk_before reached
      cases ending with
      | made =>
        obtain ⟨_, _, trail⟩ := (t.walk_eq_ok_iff _ _ _).mp led
        exact .inr ⟨opens.vacant_iff.mp trail.missing.2, led⟩
      | rewritten old =>
        left
        rw [has, led]
      | elsewhere =>
        left
        rw [has, reached] at there
        rw [has, led]
        exact there
  · rintro (there | ⟨_, led⟩)
    · exact grows.has there
    · obtain ⟨p, spelled, trail⟩ := (t.walk_eq_ok_iff _ _ _).mp led
      have found : (t.written l content).node? l = some (.file content) := by
        rw [node?_written t opens.named, if_pos rfl]
      have reached : (t.written l content).walk .find other = .ok (.node l (.file content)) := by
        refine (walk_eq_ok_iff _ _ _ _).mpr ⟨p, spelled, ?_⟩
        rw [grows.startOf]
        exact trail.settle (by decide) grows.keeps (.vacant found rfl)
      rw [has, reached]

theorem Opens.mem_listing_before {t : Tree} {path : Bytes} {l : Location} (opens : t.Opens path l)
    {content : Bytes} {p : Place} {e : Name × Node} (listed : e ∈ (t.written l content).listing p) :
    (∃ n, (e.1, n) ∈ t.listing p ∧ n.Becomes e.2) ∨
      (t.node? l = none ∧ p.removed = 0 ∧ l = e.1 :: p.live) := by
  have put : e ∈ t.listing p ∨
      (p.removed = 0 ∧ l = e.1 :: p.live ∧ ∃ bytes, e.2 = .file bytes) := by
    rcases mem_listing_of_set listed with emptied | ⟨live, here, file⟩
    · rcases mem_listing_of_set emptied with old | ⟨live, here, file⟩
      · exact .inl old
      · exact .inr ⟨live, here, [], file⟩
    · exact .inr ⟨live, here, content, file⟩
  rcases put with old | ⟨live, here, bytes, file⟩
  · exact .inl ⟨e.2, old, .same e.2⟩
  · cases held : t.node? l with
    | none => exact .inr ⟨rfl, live, here⟩
    | some old =>
      left
      refine ⟨old, mem_listing_of_node? live (here ▸ held), ?_⟩
      rw [file]
      cases opens.takes bytes old held with
      | same => exact .same _
      | rewritten before _ => exact .rewritten before bytes

theorem Opens.mem_listing_written {t : Tree} {path : Bytes} {l : Location} (opens : t.Opens path l)
    (content : Bytes) {p : Place} {name : Name} (live : p.removed = 0) (here : l = name :: p.live) :
    (name, .file content) ∈ (t.written l content).listing p := by
  apply mem_listing_of_node? live
  rw [node?_written t opens.named, if_pos here.symm]

end Tree

end RunLedger.File
