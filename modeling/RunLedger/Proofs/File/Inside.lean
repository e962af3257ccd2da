import RunLedger.Proofs.File.Parent

set_option autoImplicit false

namespace RunLedger.File

open Text

namespace Walk

private theorem steps_error_kept {t t' : Tree} {u : Purpose} {k : Nat} {f : Fault}
    (kept : ∀ l n, t.node? l = some n → t'.node? l = some n) (other : f ≠ .noEntry)
    (behindLink : ∀ (p : Place) (s : List Step),
      beyond t u k p (t.parts p.live) s = .error f → beyond t' u k p (t'.parts p.live) s = .error f)
    (p : Place) (s : List Step)
    (failed : steps t u (beyond t u k) p (t.parts p.live) s = .error f) :
    steps t' u (beyond t' u k) p (t'.parts p.live) s = .error f := by
  induction s generalizing p with
  | nil => cases failed
  | cons step rest ih =>
    cases step with
    | here | slash => exact ih p failed
    | up =>
      rw [steps_up] at failed ⊢
      exact ih p.up failed
    | name n =>
      rw [steps_name] at failed ⊢
      split at failed
      · rename_i directory
        rw [if_pos directory, failed]
      rename_i noDirectory
      rw [if_neg noDirectory]
      split at failed
      · exact absurd (Except.error.inj failed).symm other
      rename_i live
      rw [if_neg live]
      split at failed
      · rename_i long
        rw [if_pos long, failed]
      rename_i short
      rw [if_neg short]
      split at failed
      · split at failed
        · cases failed
        · exact absurd (Except.error.inj failed).symm other
      · rename_i found
        rw [kept _ _ found]
        exact ih _ failed
      · rename_i target found
        rw [kept _ _ found]
        split at failed
        · cases failed
        · rename_i through
          dsimp only
          rw [if_neg through]
          exact behindLink _ _ failed
      · rename_i node noDir noLink found
        rw [kept _ _ found]
        split at failed
        · cases failed
        · rename_i further
          cases node with
          | directory => exact absurd rfl noDir
          | link target => exact absurd rfl (noLink target)
          | file content | device d =>
            dsimp only
            rw [if_neg further, failed]

/-- A walk that fails for another reason than that nothing is there fails for it as long as all
nodes stay what they are. -/
theorem within_error_kept {t t' : Tree} {u : Purpose} {k : Nat} {f : Fault}
    (kept : ∀ l n, t.node? l = some n → t'.node? l = some n) (other : f ≠ .noEntry) (p : Place)
    (s : List Step) (failed : within t u k p (t.parts p.live) s = .error f) :
    within t' u k p (t'.parts p.live) s = .error f := by
  induction k generalizing p s with
  | zero => exact steps_error_kept (k := 0) kept other (fun _ _ many => many) p s failed
  | succ k ih => exact steps_error_kept (k := k + 1) kept other ih p s failed

theorem within_last {t : Tree} {u : Purpose} {k : Nat} {q : Place} {n : Name} (live : q.removed = 0)
    (short : n.length ≤ nameLimit) :
    within t u k q (t.parts q.live) [.name n] =
      match t.node? (n :: q.live) with
      | none => .ok (.vacant (n :: q.live))
      | some .directory => .ok (.directory ⟨n :: q.live, 0⟩)
      | some (.link target) =>
        if u = .make then .ok (.node (n :: q.live) (.link target))
        else beyond t u k (q.turn target) (t.parts (q.turn target).live)
          ((Path.ofBytes target).steps ++ [])
      | some node => .ok (.node (n :: q.live) node) := by
  have last : isLast u [] = true := by simp [isLast]
  rw [within_eq_steps, steps_name, if_neg (by simp), if_neg (by simp [live]),
    if_neg (Nat.not_lt.mpr short)]
  simp only [last, true_and, ↓reduceIte]
  rfl

end Walk

namespace Tree

/-- There is a link at a path, and it leads to nothing. -/
def Dangles (t : Tree) (path : Bytes) : Prop :=
  (∃ l target, t.walk .make path = .ok (.node l (.link target))) ∧
    ((∃ l, t.walk .find path = .ok (.vacant l)) ∨ t.walk .find path = .error .noEntry)

theorem walk_error_kept {t t' : Tree} {u : Purpose} {path : Bytes} {f : Fault}
    (kept : ∀ l n, t.node? l = some n → t'.node? l = some n) (cwd : t'.cwd = t.cwd)
    (failed : t.walk u path = .error f) (other : f ≠ .noEntry) : t'.walk u path = .error f := by
  unfold walk walkPath at failed ⊢
  cases spelled : Path.ofBytes? path with
  | error f' =>
    rw [spelled] at failed
    exact failed
  | ok p =>
    rw [spelled] at failed
    rw [cwd]
    exact Walk.within_error_kept kept other _ _ failed

theorem walk_withName {t : Tree} {dir : Bytes} {n : Name} (name : Path.IsName n) {q : Place}
    (reached : t.walkPath .find ⟨(Path.ofBytes dir).absolute, Path.named dir⟩ = .ok (.directory q))
    (live : q.removed = 0) (short : n.length ≤ Walk.nameLimit) {p : Path}
    (spelled : Path.ofBytes? (Path.withName dir n) = .ok p) (u : Purpose) :
    ∃ left, t.walk u (Path.withName dir n) =
      match t.node? (n :: q.live) with
      | none => .ok (.vacant (n :: q.live))
      | some .directory => .ok (.directory ⟨n :: q.live, 0⟩)
      | some (.link target) =>
        if u = .make then .ok (.node (n :: q.live) (.link target))
        else Walk.beyond t u left (q.turn target) (t.parts (q.turn target).live)
          ((Path.ofBytes target).steps ++ [])
      | some node => .ok (.node (n :: q.live) node) := by
  obtain ⟨left, onward⟩ := walkPath_withName name reached u
  exact ⟨left, by rw [walk_of_spelled spelled, onward, Walk.within_last live short]⟩

theorem makeDirectory_withName {t : Tree} {dir : Bytes} {n : Name} (name : Path.IsName n)
    {q : Place}
    (reached : t.walkPath .find ⟨(Path.ofBytes dir).absolute, Path.named dir⟩ = .ok (.directory q))
    (live : q.removed = 0) (short : n.length ≤ Walk.nameLimit) :
    (t.node? (n :: q.live) = none ∧
        t.makeDirectory (Path.ofBytes (Path.withName dir n)) =
          .ok (t.set (n :: q.live) .directory)) ∨
      t.makeDirectory (Path.ofBytes (Path.withName dir n)) = .error .alreadyThere := by
  obtain ⟨left, onward⟩ := walkPath_withName name reached .make
  rw [makeDirectory, onward, Walk.within_last live short]
  cases found : t.node? (n :: q.live) with
  | none => exact .inl ⟨rfl, rfl⟩
  | some node => cases node <;> exact .inr rfl

theorem textSteps_withName_ne_nil (dir : Bytes) {n : Name} (name : Path.IsName n) :
    (Path.ofBytes (Path.withName dir n)).textSteps ≠ [] := by
  rw [Path.ofBytes_withName dir name, Path.textSteps_concat]
  exact List.append_ne_nil_of_right_ne_nil _ (List.cons_ne_nil _ _)

/-- To make the directory of a name in one that is there makes it alone, or nothing. -/
theorem makeDirectories_withName {t t' : Tree} {dir : Bytes} {n : Name} (name : Path.IsName n)
    {q : Place}
    (reached : t.walkPath .find ⟨(Path.ofBytes dir).absolute, Path.named dir⟩ = .ok (.directory q))
    (live : q.removed = 0) (short : n.length ≤ Walk.nameLimit)
    (success : t.makeDirectories (Path.withName dir n) = (t', none)) :
    t' = t ∨ (t.node? (n :: q.live) = none ∧ t' = t.set (n :: q.live) .directory) := by
  rw [makeDirectories, Path.ancestors, if_neg (textSteps_withName_ne_nil dir name)] at success
  cases spelled : Path.ofBytes? (Path.withName dir n) with
  | error f =>
    rw [spelled] at success
    cases success
  | ok p =>
    rw [spelled] at success
    dsimp only at success
    rw [climb] at success
    rcases makeDirectory_withName name reached live short with ⟨nothing, made⟩ | there
    · rw [made] at success
      cases success
      exact .inr ⟨nothing, rfl⟩
    · have other : Fault.alreadyThere ≠ .noEntry := by decide
      rw [there] at success
      dsimp only at success
      rw [if_neg other] at success
      split at success
      · cases success
      · rename_i climbed
        split at climbed
        · cases climbed
          cases success
          exact .inl rfl
        · cases climbed

/-- A link that does not lead to something, but is not set apart as leading to nothing, fails for a
reason that stays while the tree only gains nodes. -/
theorem not_has_link_kept {t t' : Tree} {path : Bytes}
    (kept : ∀ l n, t.node? l = some n → t'.node? l = some n) (cwd : t'.cwd = t.cwd)
    (link : ∃ l target, t.walk .make path = .ok (.node l (.link target)))
    (absent : ¬ t.has path = true) (settled : ¬ t.Dangles path) : ¬ t'.has path = true := by
  cases leads : t.walk .find path with
  | error f =>
    have other : f ≠ .noEntry := by
      rintro rfl
      exact settled ⟨link, .inr leads⟩
    rw [has, walk_error_kept kept cwd leads other]
    exact Bool.false_ne_true
  | ok spot =>
    cases spot with
    | vacant l => exact absurd ⟨link, .inl ⟨l, leads⟩⟩ settled
    | directory p | node l found =>
      rw [has, leads] at absent
      exact absurd rfl absent

theorem not_has_beside {t : Tree} {dir : Bytes} {n m : Name} (name : Path.IsName n) {q : Place}
    (reached : t.walkPath .find ⟨(Path.ofBytes dir).absolute, Path.named dir⟩ = .ok (.directory q))
    (live : q.removed = 0) (short : n.length ≤ Walk.nameLimit) (beside : n ≠ m)
    (vacant : t.node? (m :: q.live) = none) (absent : ¬ t.has (Path.withName dir n) = true)
    (settled : ¬ t.Dangles (Path.withName dir n)) :
    ¬ (t.set (m :: q.live) .directory).has (Path.withName dir n) = true := by
  have named : m :: q.live ≠ [] := List.cons_ne_nil _ _
  cases spelled : Path.ofBytes? (Path.withName dir n) with
  | error f =>
    rw [has, walk, spelled]
    exact Bool.false_ne_true
  | ok p =>
    cases found : t.node? (n :: q.live) with
    | none =>
      have still : (t.set (m :: q.live) .directory).node? (n :: q.live) = none := by
        rw [node?_set t _ named, if_neg (by simp [beside]), found]
      have reached' := (grows_set_vacant named vacant .directory).walkPath_directory reached
      obtain ⟨_, after⟩ := walk_withName name reached' live short spelled .find
      rw [still] at after
      rw [has, after]
      exact Bool.false_ne_true
    | some node =>
      cases node with
      | directory | file content | device d =>
        obtain ⟨_, before⟩ := walk_withName name reached live short spelled .find
        rw [found] at before
        rw [has, before] at absent
        exact absurd rfl absent
      | link target =>
        obtain ⟨_, made⟩ := walk_withName name reached live short spelled .make
        rw [found] at made
        exact not_has_link_kept (fun _ _ => node?_set_of_found named vacant .directory) rfl
          ⟨_, target, made⟩ absent settled

end Tree

end RunLedger.File
