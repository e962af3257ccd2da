import RunLedger.File.Access

set_option autoImplicit false

namespace RunLedger.File

open Text

/-- Whether a walk can look for a name: the place is there, the name is not too long, and it is not
a file to be opened whose path asks for a directory. -/
structure Seeks (u : Purpose) (p : Place) (n : Name) (rest : List Step) : Prop where
  noDirectory : ¬ (u = .openFile ∧ rest = [.slash])
  live : p.removed = 0
  short : n.length ≤ Walk.nameLimit

/-- Whether a walk ends at a node that the last name of its path leads to. -/
def Node.stops (u : Purpose) : Node → Bool
  | .directory => false
  | .link _ => u = .make
  | .file _ | .device _ => true

/-- Where a link's target starts that was met in the directory of a place. -/
def Place.turn (p : Place) (target : Bytes) : Place :=
  if (Path.ofBytes target).absolute then .root else p

/-- The steps from a place lead to a spot, through so many links at most, where `look` says what is
at each location. -/
inductive Trail (look : Location → Option Node) (u : Purpose) :
    Nat → Place → List Step → Spot → Prop
  | done (k : Nat) (p : Place) : Trail look u k p [] (.directory p)
  | here {k : Nat} {p : Place} {rest : List Step} {spot : Spot}
      (onward : Trail look u k p rest spot) : Trail look u k p (.here :: rest) spot
  | slash {k : Nat} {p : Place} {rest : List Step} {spot : Spot}
      (onward : Trail look u k p rest spot) : Trail look u k p (.slash :: rest) spot
  | up {k : Nat} {p : Place} {rest : List Step} {spot : Spot}
      (onward : Trail look u k p.up rest spot) : Trail look u k p (.up :: rest) spot
  | enter {k : Nat} {p : Place} {n : Name} {rest : List Step} {spot : Spot}
      (seeks : Seeks u p n rest) (found : look (n :: p.live) = some .directory)
      (onward : Trail look u k ⟨n :: p.live, 0⟩ rest spot) :
      Trail look u k p (.name n :: rest) spot
  | follow {k : Nat} {p : Place} {n : Name} {rest : List Step} {spot : Spot} {target : Bytes}
      (seeks : Seeks u p n rest) (found : look (n :: p.live) = some (.link target))
      (through : ¬ (Walk.isLast u rest = true ∧ u = .make))
      (onward : Trail look u k (p.turn target) ((Path.ofBytes target).steps ++ rest) spot) :
      Trail look u (k + 1) p (.name n :: rest) spot
  | meet {k : Nat} {p : Place} {n : Name} {rest : List Step} {node : Node}
      (seeks : Seeks u p n rest) (found : look (n :: p.live) = some node)
      (last : Walk.isLast u rest = true) (stops : node.stops u = true) :
      Trail look u k p (.name n :: rest) (.node (n :: p.live) node)
  | miss {k : Nat} {p : Place} {n : Name} {rest : List Step}
      (seeks : Seeks u p n rest) (nothing : look (n :: p.live) = none)
      (last : Walk.isLast u rest = true) :
      Trail look u k p (.name n :: rest) (.vacant (n :: p.live))

namespace Walk

/-- How a walk goes on behind a link, when it may go through so many at most. -/
def beyond (t : Tree) (u : Purpose) : Nat → Course
  | 0 => fun _ _ _ => .error .tooManyLinks
  | k + 1 => within t u k

theorem within_eq_steps (t : Tree) (u : Purpose) (k : Nat) :
    within t u k = steps t u (beyond t u k) := by
  cases k <;> rfl

/-- With the parts at its place at hand, a step to a name depends on what is at the location. -/
theorem steps_name (t : Tree) (u : Purpose) (go : Course) (p : Place) (n : Name)
    (rest : List Step) :
    steps t u go p (t.parts p.live) (.name n :: rest) =
      if u = .openFile ∧ rest = [.slash] then .error .isDirectory
      else if p.removed ≠ 0 then .error .noEntry
      else if nameLimit < n.length then .error .nameTooLong
      else
        match t.node? (n :: p.live) with
        | none => if isLast u rest then .ok (.vacant (n :: p.live)) else .error .noEntry
        | some .directory => steps t u go ⟨n :: p.live, 0⟩ (t.parts (n :: p.live)) rest
        | some (.link target) =>
          if isLast u rest ∧ u = .make then .ok (.node (n :: p.live) (.link target))
          else go (p.turn target) (t.parts (p.turn target).live)
            ((Path.ofBytes target).steps ++ rest)
        | some node =>
          if isLast u rest then .ok (.node (n :: p.live) node) else .error .notDirectory := by
  have parts : Trie.child (t.nearest (t.parts p.live)).inside n :: t.parts p.live =
      t.parts (n :: p.live) := rfl
  have behind_turn (target : Bytes) : behind go p (t.parts p.live) target rest =
      go (p.turn target) (t.parts (p.turn target).live)
        ((Path.ofBytes target).steps ++ rest) := by
    unfold behind Place.turn
    dsimp only
    split <;> rfl
  rw [steps]
  cases found : t.node? (n :: p.live) with
  | none => simp only [t.value_child_nearest, found]
  | some node =>
    cases node <;> simp only [t.value_child_nearest, parts, behind_turn, found]

theorem steps_up (t : Tree) (u : Purpose) (go : Course) (p : Place) (rest : List Step) :
    steps t u go p (t.parts p.live) (.up :: rest) = steps t u go p.up (t.parts p.up.live) rest := by
  rw [steps]
  obtain ⟨live, removed⟩ := p
  cases removed with
  | zero => simp only [Place.up, ↓reduceIte, t.parts_tail]
  | succ removed => rfl

/-- The steps between two links leave a trail, if what is behind the next link does. -/
private theorem trail_of_steps (t : Tree) (u : Purpose) (k : Nat)
    (behindLink : ∀ (p : Place) (s : List Step) (spot : Spot),
      beyond t u k p (t.parts p.live) s = .ok spot →
        ∃ fewer, k = fewer + 1 ∧ Trail t.node? u fewer p s spot)
    (p : Place) (s : List Step) (spot : Spot)
    (reached : steps t u (beyond t u k) p (t.parts p.live) s = .ok spot) :
    Trail t.node? u k p s spot := by
  induction s generalizing p with
  | nil =>
    cases reached
    exact .done k p
  | cons step rest ih =>
    cases step with
    | here => exact .here (ih p reached)
    | slash => exact .slash (ih p reached)
    | up =>
      rw [steps_up] at reached
      exact .up (ih p.up reached)
    | name n =>
      rw [steps_name] at reached
      split at reached
      · cases reached
      rename_i noDirectory
      split at reached
      · cases reached
      rename_i live
      split at reached
      · cases reached
      rename_i short
      have seeks : Seeks u p n rest := ⟨noDirectory, by simpa using live, by omega⟩
      split at reached
      · rename_i nothing
        split at reached
        · rename_i last
          cases reached
          exact .miss seeks nothing last
        · cases reached
      · rename_i found
        exact .enter seeks found (ih _ reached)
      · rename_i target found
        split at reached
        · rename_i ending
          cases reached
          exact .meet seeks found ending.1 (by simpa [Node.stops] using ending.2)
        · rename_i through
          obtain ⟨fewer, rfl, onward⟩ := behindLink _ _ _ reached
          exact .follow seeks found through onward
      · rename_i node noDir noLink found
        split at reached
        · rename_i last
          cases reached
          refine .meet seeks found last ?_
          cases node with
          | directory => exact absurd rfl noDir
          | link target => exact absurd rfl (noLink target)
          | file content => rfl
          | device d => rfl
        · cases reached

theorem trail_of_within (t : Tree) (u : Purpose) (k : Nat) (p : Place) (s : List Step)
    (spot : Spot) (reached : within t u k p (t.parts p.live) s = .ok spot) :
    Trail t.node? u k p s spot := by
  induction k generalizing p s spot with
  | zero =>
    apply trail_of_steps t u 0 _ p s spot reached
    intro p s spot impossible
    cases impossible
  | succ k ih =>
    apply trail_of_steps t u (k + 1) _ p s spot reached
    intro p s spot onward
    exact ⟨k, rfl, ih p s spot onward⟩

theorem within_of_trail {t : Tree} {u : Purpose} {k : Nat} {p : Place} {s : List Step}
    {spot : Spot} (trail : Trail t.node? u k p s spot) :
    within t u k p (t.parts p.live) s = .ok spot := by
  induction trail with
  | done k p => rw [within_eq_steps, steps]
  | here _ ih => rwa [within_eq_steps, steps, ← within_eq_steps]
  | slash _ ih => rwa [within_eq_steps, steps, ← within_eq_steps]
  | up _ ih => rwa [within_eq_steps, steps_up, ← within_eq_steps]
  | enter seeks found _ ih =>
    rw [within_eq_steps, steps_name, if_neg seeks.noDirectory, if_neg (by simp [seeks.live]),
      if_neg (Nat.not_lt.mpr seeks.short), found]
    simpa only [within_eq_steps] using ih
  | follow seeks found through _ ih =>
    rw [within_eq_steps, steps_name, if_neg seeks.noDirectory, if_neg (by simp [seeks.live]),
      if_neg (Nat.not_lt.mpr seeks.short), found]
    dsimp only
    rw [if_neg through]
    exact ih
  | @meet k p n rest node seeks found last stops =>
    rw [within_eq_steps, steps_name, if_neg seeks.noDirectory, if_neg (by simp [seeks.live]),
      if_neg (Nat.not_lt.mpr seeks.short), found]
    cases node with
    | directory => cases stops
    | link target => simp only [last, true_and, if_pos (of_decide_eq_true stops)]
    | file content => simp only [last, ↓reduceIte]
    | device d => simp only [last, ↓reduceIte]
  | miss seeks nothing last =>
    rw [within_eq_steps, steps_name, if_neg seeks.noDirectory, if_neg (by simp [seeks.live]),
      if_neg (Nat.not_lt.mpr seeks.short), nothing]
    simp only [last, ↓reduceIte]

end Walk

namespace Tree

/-- Where the steps of a path start. -/
def startOf (t : Tree) (p : Path) : Place :=
  if p.absolute then .root else t.cwd

theorem walkPath_eq_ok_iff (t : Tree) (u : Purpose) (p : Path) (spot : Spot) :
    t.walkPath u p = .ok spot ↔
      Trail t.node? u Walk.linkLimit (t.startOf p) p.steps spot :=
  ⟨Walk.trail_of_within t u Walk.linkLimit (t.startOf p) p.steps spot, Walk.within_of_trail⟩

theorem walk_eq_ok_iff (t : Tree) (u : Purpose) (path : Bytes) (spot : Spot) :
    t.walk u path = .ok spot ↔
      ∃ p, Path.ofBytes? path = .ok p ∧
        Trail t.node? u Walk.linkLimit (t.startOf p) p.steps spot := by
  unfold walk
  cases Path.ofBytes? path with
  | error f =>
    constructor
    · intro impossible
      cases impossible
    · rintro ⟨p, impossible, _⟩
      cases impossible
  | ok p =>
    constructor
    · intro reached
      exact ⟨p, rfl, (t.walkPath_eq_ok_iff u p spot).mp reached⟩
    · rintro ⟨q, same, trail⟩
      cases same
      exact (t.walkPath_eq_ok_iff u p spot).mpr trail

theorem has_iff (t : Tree) (path : Bytes) :
    t.has path = true ↔
      (∃ q, t.walk .find path = .ok (.directory q)) ∨
        ∃ l n, t.walk .find path = .ok (.node l n) := by
  unfold has
  split
  · rename_i q reached
    exact iff_of_true rfl (.inl ⟨q, reached⟩)
  · rename_i l n reached
    exact iff_of_true rfl (.inr ⟨l, n, reached⟩)
  · rename_i noDirectory noNode
    refine iff_of_false Bool.false_ne_true ?_
    rintro (⟨q, reached⟩ | ⟨l, n, reached⟩)
    · exact noDirectory q reached
    · exact noNode l n reached

/-- Where a path leads depends on what is at each location and on the working directory alone. -/
theorem walk_eq_ok_congr {t t' : Tree} (node : ∀ l, t'.node? l = t.node? l) (cwd : t'.cwd = t.cwd)
    (u : Purpose) (path : Bytes) (spot : Spot) :
    t'.walk u path = .ok spot ↔ t.walk u path = .ok spot := by
  have look : t'.node? = t.node? := funext node
  simp only [walk_eq_ok_iff, startOf, look, cwd]

theorem has_congr {t t' : Tree} (node : ∀ l, t'.node? l = t.node? l) (cwd : t'.cwd = t.cwd)
    (path : Bytes) : t'.has path = t.has path := by
  rw [Bool.eq_iff_iff, has_iff, has_iff]
  simp only [walk_eq_ok_congr node cwd]

end Tree

/-- What the end of a trail is for a walk that looks for something, once a node is at the end that
is neither a directory nor a link. -/
inductive Settled (look : Location → Option Node) : Spot → Spot → Prop
  | directory (p : Place) : Settled look (.directory p) (.directory p)
  | node {l : Location} {n : Node} (found : look l = some n) (stops : n.stops .find = true)
      (old : Node) : Settled look (.node l old) (.node l n)
  | vacant {l : Location} {n : Node} (found : look l = some n) (stops : n.stops .find = true) :
      Settled look (.vacant l) (.node l n)

/-- Whether a look finds the directories and the links that another one finds. -/
structure Keeps (look look' : Location → Option Node) : Prop where
  directory : ∀ l, look l = some .directory → look' l = some .directory
  link : ∀ l target, look l = some (.link target) → look' l = some (.link target)

/-- A trail for something that is there, or for a file to be opened, does not depend on what is at
its end, and passes directories and links only. -/
theorem Trail.settle {look look' : Location → Option Node} {u : Purpose} {k : Nat} {p : Place}
    {s : List Step} {spot spot' : Spot} (trail : Trail look u k p s spot) (making : u ≠ .make)
    (keeps : Keeps look look') (settled : Settled look' spot spot') :
    Trail look' .find k p s spot' := by
  have last (rest : List Step) : Walk.isLast .find rest = Walk.isLast u rest := by
    simp [Walk.isLast, making]
  have seeking {p : Place} {n : Name} {rest : List Step} (seeks : Seeks u p n rest) :
      Seeks .find p n rest := ⟨by simp, seeks.live, seeks.short⟩
  induction trail with
  | done k p =>
    cases settled
    exact .done k p
  | here _ ih => exact .here (ih settled)
  | slash _ ih => exact .slash (ih settled)
  | up _ ih => exact .up (ih settled)
  | enter seeks found _ ih =>
    exact .enter (seeking seeks) (keeps.directory _ found) (ih settled)
  | follow seeks found _ _ ih =>
    exact .follow (seeking seeks) (keeps.link _ _ found) (by simp) (ih settled)
  | meet seeks _ ending _ =>
    cases settled with
    | node found stops => exact .meet (seeking seeks) found ((last _).trans ending) stops
  | miss seeks _ ending =>
    cases settled with
    | vacant found stops => exact .meet (seeking seeks) found ((last _).trans ending) stops

/-- What a trail meets at its end is there, and a place with no name is no such end. -/
theorem Trail.found {look : Location → Option Node} {u : Purpose} {k : Nat} {p : Place}
    {s : List Step} {l : Location} {n : Node} (trail : Trail look u k p s (.node l n)) :
    l ≠ [] ∧ look l = some n ∧ n.stops u = true := by
  generalize reached : Spot.node l n = spot at trail
  induction trail with
  | done | miss => cases reached
  | here _ ih | slash _ ih | up _ ih | enter _ _ _ ih | follow _ _ _ _ ih => exact ih reached
  | meet _ found _ stops =>
    cases reached
    exact ⟨List.cons_ne_nil _ _, found, stops⟩

theorem Trail.missing {look : Location → Option Node} {u : Purpose} {k : Nat} {p : Place}
    {s : List Step} {l : Location} (trail : Trail look u k p s (.vacant l)) :
    l ≠ [] ∧ look l = none := by
  generalize reached : Spot.vacant l = spot at trail
  induction trail with
  | done | meet => cases reached
  | here _ ih | slash _ ih | up _ ih | enter _ _ _ ih | follow _ _ _ _ ih => exact ih reached
  | miss _ nothing _ =>
    cases reached
    exact ⟨List.cons_ne_nil _ _, nothing⟩

end RunLedger.File
