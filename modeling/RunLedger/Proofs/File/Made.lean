import RunLedger.Proofs.File.Change

set_option autoImplicit false

namespace RunLedger.File

open Text Relation

/-- A step that stays in the directory where it is taken. -/
def Step.stays : Step → Bool
  | .here | .slash => true
  | .up | .name _ => false

/-- Steps that are others once some that stay in place are left out. -/
inductive Skips : List Step → List Step → Prop
  | nil : Skips [] []
  | keep (step : Step) {s s' : List Step} (rest : Skips s s') : Skips (step :: s) (step :: s')
  | skip {step : Step} (stays : step.stays = true) {s s' : List Step} (rest : Skips s s') :
      Skips (step :: s) s'

namespace Skips

theorem refl (s : List Step) : Skips s s := by
  induction s with
  | nil => exact .nil
  | cons step s ih => exact .keep step ih

theorem append_left (front : List Step) {s s' : List Step} (skips : Skips s s') :
    Skips (front ++ s) (front ++ s') := by
  induction front with
  | nil => exact skips
  | cons step front ih => exact .keep step ih

theorem filter (s : List Step) :
    Skips s (s.filter fun step => step != .here && step != .slash) := by
  induction s with
  | nil => exact .nil
  | cons step s ih =>
    cases step with
    | here | slash => exact .skip rfl ih
    | up | name n => exact .keep _ ih

/-- What is left of some first steps is what some first steps leave. -/
theorem beginning {s s' front' : List Step} (skips : Skips s s') (begins : front' <+: s') :
    ∃ front, front <+: s ∧ Skips front front' := by
  induction skips generalizing front' with
  | nil =>
    rw [List.prefix_nil] at begins
    exact ⟨[], List.nil_prefix, begins ▸ .nil⟩
  | @keep step s s' rest ih =>
    cases front' with
    | nil => exact ⟨[], List.nil_prefix, .nil⟩
    | cons first front' =>
      obtain ⟨rfl, later⟩ := List.cons_prefix_cons.mp begins
      obtain ⟨front, before, skips⟩ := ih later
      exact ⟨first :: front, List.cons_prefix_cons.mpr ⟨rfl, before⟩, .keep first skips⟩
  | @skip step stays s s' rest ih =>
    obtain ⟨front, before, skips⟩ := ih begins
    exact ⟨step :: front, List.cons_prefix_cons.mpr ⟨rfl, before⟩, .skip stays skips⟩

end Skips

/-- Steps that differ only by some that stay in place. -/
inductive Alike : List Step → List Step → Prop
  | nil : Alike [] []
  | keep (step : Step) {s s' : List Step} (rest : Alike s s') : Alike (step :: s) (step :: s')
  | left {step : Step} (stays : step.stays = true) {s s' : List Step} (rest : Alike s s') :
      Alike (step :: s) s'
  | right {step : Step} (stays : step.stays = true) {s s' : List Step} (rest : Alike s s') :
      Alike s (step :: s')

theorem Alike.symm {s s' : List Step} (alike : Alike s s') : Alike s' s := by
  induction alike with
  | nil => exact .nil
  | keep step _ ih => exact .keep step ih
  | left stays _ ih => exact .right stays ih
  | right stays _ ih => exact .left stays ih

theorem Alike.append_left (front : List Step) {s s' : List Step} (alike : Alike s s') :
    Alike (front ++ s) (front ++ s') := by
  induction front with
  | nil => exact alike
  | cons step front ih => exact .keep step ih

theorem Alike.concat {s s' : List Step} (alike : Alike s s') {step : Step}
    (stays : step.stays = true) : Alike s (s' ++ [step]) := by
  induction alike with
  | nil => exact .right stays .nil
  | keep first _ ih => exact .keep first ih
  | left idle _ ih => exact .left idle ih
  | right idle _ ih => exact .right idle ih

theorem Skips.alike {s s' : List Step} (skips : Skips s s') : Alike s s' := by
  induction skips with
  | nil => exact .nil
  | keep step _ ih => exact .keep step ih
  | skip stays _ ih => exact .left stays ih

/-- To a directory, steps lead as well that differ by some that stay in place. Behind a link they
come after the steps of its target, so the induction is on the links, and within them on the
steps. -/
theorem Trail.alike {look : Location → Option Node} {k : Nat} {p q : Place} {s s' : List Step}
    (alike : Alike s s') (trail : Trail look .find k p s' (.directory q)) :
    Trail look .find k p s (.directory q) := by
  induction k using Nat.strongRecOn generalizing p s s' with
  | ind k behind =>
    induction alike generalizing p with
    | nil => exact trail
    | keep step rest ih =>
      cases trail with
      | here onward => exact .here (ih onward)
      | slash onward => exact .slash (ih onward)
      | up onward => exact .up (ih onward)
      | enter seeks found onward =>
        exact .enter ⟨by simp, seeks.live, seeks.short⟩ found (ih onward)
      | follow seeks found _ onward =>
        have steps := behind _ (Nat.lt_succ_self _) (rest.append_left _) onward
        exact .follow ⟨by simp, seeks.live, seeks.short⟩ found (by simp) steps
    | @left step stays s s' rest ih =>
      cases step with
      | here => exact .here (ih trail)
      | slash => exact .slash (ih trail)
      | up | name n => cases stays
    | @right step stays s s' rest ih =>
      cases trail with
      | here onward | slash onward => exact ih onward
      | up | enter | follow => cases stays

theorem Trail.unskip {look : Location → Option Node} {k : Nat} {p q : Place} {s s' : List Step}
    (skips : Skips s s') (trail : Trail look .find k p s' (.directory q)) :
    Trail look .find k p s (.directory q) :=
  trail.alike skips.alike

theorem Trail.skip {look : Location → Option Node} {k : Nat} {p q : Place} {s s' : List Step}
    (skips : Skips s s') (trail : Trail look .find k p s (.directory q)) :
    Trail look .find k p s' (.directory q) :=
  trail.alike skips.alike.symm

/-- Once a directory is at the vacant end of a trail, the trail leads to it. -/
theorem Trail.made {look look' : Location → Option Node} {k : Nat} {p : Place} {s : List Step}
    {l : Location} (trail : Trail look .make k p s (.vacant l)) (keeps : Keeps look look')
    (there : look' l = some .directory) : Trail look' .find k p s (.directory ⟨l, 0⟩) := by
  have seeking {p : Place} {n : Name} {rest : List Step} (seeks : Seeks .make p n rest) :
      Seeks .find p n rest := ⟨by simp, seeks.live, seeks.short⟩
  generalize reached : Spot.vacant l = spot at trail
  induction trail with
  | done | meet => cases reached
  | here _ ih => exact .here (ih reached)
  | slash _ ih => exact .slash (ih reached)
  | up _ ih => exact .up (ih reached)
  | enter seeks found _ ih => exact .enter (seeking seeks) (keeps.directory _ found) (ih reached)
  | follow seeks found _ _ ih =>
    exact .follow (seeking seeks) (keeps.link _ _ found) (by simp) (ih reached)
  | @miss k p n rest seeks _ last =>
    cases reached
    refine .enter (seeking seeks) there ?_
    -- Behind the last name of a path there is nothing, or the slash that asks for a directory.
    have ending : rest = [] ∨ rest = [.slash] := by simpa [Walk.isLast] using last
    rcases ending with rfl | rfl
    · exact .done k _
    · exact .slash (.done k _)

namespace Path

theorem skips_textSteps (p : Path) : Skips p.steps p.textSteps := by
  unfold textSteps
  split
  · rename_i steps
    rw [steps]
    exact .keep .here (Skips.filter _)
  · exact Skips.filter _

theorem suffix_of_mem_beginnings {α : Type} {l s : List α} (among : s ∈ beginnings l) :
    s <:+ l := by
  fun_induction beginnings l with
  | case1 | case2 => cases among
  | case3 a r _ ih =>
    rcases List.mem_cons.mp among with rfl | later
    · exact List.suffix_cons a s
    · exact (ih later).trans (List.suffix_cons a r)

/-- A path around another one takes some of its first steps, up to steps that stay in place. -/
theorem begins_of_mem_ancestors {p q : Path} (among : q ∈ p.ancestors) :
    ∃ front, front <+: p.steps ∧ q.absolute = p.absolute ∧ Skips front q.steps := by
  unfold ancestors at among
  split at among
  · cases among
  · rcases List.mem_cons.mp among with rfl | around
    · exact ⟨q.steps, List.prefix_refl _, rfl, .refl _⟩
    · obtain ⟨s, begins, rfl⟩ := List.mem_map.mp around
      have text : s.reverse <+: p.textSteps := by
        rw [← List.reverse_suffix, List.reverse_reverse]
        exact suffix_of_mem_beginnings begins
      obtain ⟨front, before, skips⟩ := p.skips_textSteps.beginning text
      exact ⟨front, before, rfl, skips⟩

end Path

namespace Tree

/-- Some first steps of a path, or all of them, lead to the directory at a location. -/
def Names (t : Tree) (path : Bytes) (l : Location) : Prop :=
  ∃ front, front <+: (Path.ofBytes path).steps ∧
    t.walkPath .find ⟨(Path.ofBytes path).absolute, front⟩ = .ok (.directory ⟨l, 0⟩)

theorem Grows.walkPath_directory {t t' : Tree} (grows : t.Grows t') {p : Path} {q : Place}
    (reached : t.walkPath .find p = .ok (.directory q)) :
    t'.walkPath .find p = .ok (.directory q) := by
  have trail := (t.walkPath_eq_ok_iff _ _ _).mp reached
  refine (t'.walkPath_eq_ok_iff _ _ _).mpr ?_
  rw [grows.startOf]
  exact trail.settle (by decide) grows.keeps (.directory q)

theorem Grows.names {t t' : Tree} (grows : t.Grows t') {path : Bytes} {l : Location}
    (names : t.Names path l) : t'.Names path l := by
  obtain ⟨front, begins, reached⟩ := names
  exact ⟨front, begins, grows.walkPath_directory reached⟩

theorem names_of_ancestor {t : Tree} {path : Bytes} {p : Path} {l : Location}
    (among : p ∈ (Path.ofBytes path).ancestors)
    (reached : t.walkPath .find p = .ok (.directory ⟨l, 0⟩)) : t.Names path l := by
  obtain ⟨front, begins, absolute, skips⟩ := Path.begins_of_mem_ancestors among
  have trail := (t.walkPath_eq_ok_iff _ _ _).mp reached
  refine ⟨front, begins, (t.walkPath_eq_ok_iff _ _ _).mpr ?_⟩
  rw [startOf, ← absolute]
  exact trail.unskip skips

/-- A location is as it was, or a directory was made there that one of the paths leads to. -/
inductive Made (paths : List Path) (t t' : Tree) (l : Location) : Prop
  | kept (same : t'.node? l = t.node? l)
  | made (nothing : t.node? l = none) (there : t'.node? l = some .directory) {p : Path}
      (asked : p ∈ paths) (reached : t'.walkPath .find p = .ok (.directory ⟨l, 0⟩))

theorem Makes.made_or_kept {paths : List Path} {t t' : Tree} (step : Makes paths t t')
    (l : Location) : Made paths t t' l := by
  have grows := step.grows
  cases step with
  | @made p l' asked vacant =>
    have trail := (t.walkPath_eq_ok_iff _ _ _).mp vacant
    obtain ⟨named, nothing⟩ := trail.missing
    have there : (t.set l' .directory).node? l' = some .directory := by
      rw [node?_set t _ named, if_pos rfl]
    by_cases here : l = l'
    · subst here
      refine .made nothing there asked ((walkPath_eq_ok_iff _ _ _ _).mpr ?_)
      rw [grows.startOf]
      exact trail.made grows.keeps there
    · exact .kept (by rw [node?_set t _ named, if_neg here])

/-- What is made one after the other: a directory that was made stays, and its path leads to it. -/
theorem made_or_kept {paths : List Path} {t t' : Tree} (steps : ReflTransGen (Makes paths) t t')
    (l : Location) : Made paths t t' l := by
  induction steps with
  | refl => exact .kept rfl
  | @tail between after _ step ih =>
    cases ih with
    | kept same =>
      cases step.made_or_kept l with
      | kept same' => exact .kept (same'.trans same)
      | made nothing there asked reached => exact .made (same ▸ nothing) there asked reached
    | made nothing there asked reached =>
      cases step.made_or_kept l with
      | kept same' =>
        exact .made nothing (same'.trans there) asked (step.grows.walkPath_directory reached)
      | made nothing' _ _ _ =>
        rw [there] at nothing'
        cases nothing'

/-- Making a directory leaves each location as it was, or makes one there of those that some first
steps of its path lead to. -/
theorem makeDirectories_names (t : Tree) (path : Bytes) (l : Location) :
    (t.makeDirectories path).1.node? l = t.node? l ∨
      (t.node? l = none ∧ (t.makeDirectories path).1.node? l = some .directory ∧
        (t.makeDirectories path).1.Names path l) := by
  cases made_or_kept (t.makeDirectories_makes path) l with
  | kept same => exact .inl same
  | made nothing there asked reached =>
    exact .inr ⟨nothing, there, names_of_ancestor asked reached⟩

end Tree

end RunLedger.File
