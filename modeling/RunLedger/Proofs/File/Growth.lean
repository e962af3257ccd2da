import Mathlib.Logic.Relation
import RunLedger.Proofs.File.Entries
import RunLedger.Proofs.File.Trail

set_option autoImplicit false

namespace RunLedger.File

open Text

/-- What a node can be later: itself, and a file with any content if it is a file. -/
inductive Node.Becomes : Node → Node → Prop
  | same (n : Node) : Becomes n n
  | rewritten (before after : Bytes) : Becomes (.file before) (.file after)

theorem Node.Becomes.trans {a b c : Node} (first : a.Becomes b) (second : b.Becomes c) :
    a.Becomes c := by
  cases first with
  | same => exact second
  | rewritten before _ =>
    cases second with
    | same => exact .rewritten _ _
    | rewritten _ after => exact .rewritten before after

theorem Node.Becomes.stops {a b : Node} (later : a.Becomes b) (u : Purpose) :
    b.stops u = a.stops u := by
  cases later <;> rfl

namespace Tree

/-- Nothing of a tree is lost in another one, and its working directory is the same. -/
structure Grows (t t' : Tree) : Prop where
  cwd : t'.cwd = t.cwd
  kept : ∀ l n, t.node? l = some n → ∃ n', t'.node? l = some n' ∧ n.Becomes n'
  listed : ∀ p e, e ∈ t.listing p → ∃ n', (e.1, n') ∈ t'.listing p ∧ e.2.Becomes n'

theorem Grows.refl (t : Tree) : t.Grows t :=
  ⟨rfl, fun _ n found => ⟨n, found, .same n⟩, fun _ e listed => ⟨e.2, listed, .same e.2⟩⟩

theorem Grows.trans {a b c : Tree} (first : a.Grows b) (second : b.Grows c) : a.Grows c := by
  refine ⟨second.cwd.trans first.cwd, ?_, ?_⟩
  · intro l n found
    obtain ⟨n', found', becomes⟩ := first.kept l n found
    obtain ⟨n'', found'', becomes'⟩ := second.kept l n' found'
    exact ⟨n'', found'', becomes.trans becomes'⟩
  · intro p e listed
    obtain ⟨n', listed', becomes⟩ := first.listed p e listed
    obtain ⟨n'', listed'', becomes'⟩ := second.listed p _ listed'
    exact ⟨n'', listed'', becomes.trans becomes'⟩

/-- A node that is put where nothing was, or a file that takes a file's place. -/
theorem grows_set (t : Tree) {l : Location} (named : l ≠ []) (n : Node)
    (takes : ∀ old, t.node? l = some old → old.Becomes n) : t.Grows (t.set l n) := by
  refine ⟨rfl, ?_, ?_⟩
  · intro l' old found
    rw [node?_set t n named]
    by_cases here : l' = l
    · subst here
      exact ⟨n, if_pos rfl, takes old found⟩
    · exact ⟨old, by rw [if_neg here, found], .same old⟩
  · intro p e listed
    rw [listing_eq] at listed ⊢
    split at listed
    · rename_i live
      rw [if_pos live]
      rcases Trie.mem_entries_insert listed l.reverse n with kept | ⟨found, replaced⟩
      · exact ⟨e.2, kept, .same e.2⟩
      · refine ⟨n, replaced, takes e.2 ?_⟩
        rw [node?, if_neg named, found]
    · cases listed

theorem grows_set_vacant {t : Tree} {l : Location} (named : l ≠ []) (vacant : t.node? l = none)
    (n : Node) : t.Grows (t.set l n) := by
  apply t.grows_set named
  intro old found
  rw [vacant] at found
  cases found

/-- A node that is put where nothing was takes the place of no other. -/
theorem node?_set_of_found {t : Tree} {l l' : Location} {old : Node} (named : l ≠ [])
    (vacant : t.node? l = none) (n : Node) (found : t.node? l' = some old) :
    (t.set l n).node? l' = some old := by
  have elsewhere : l' ≠ l := by
    rintro rfl
    rw [vacant] at found
    cases found
  rw [node?_set t n named, if_neg elsewhere, found]

theorem Grows.keeps {t t' : Tree} (grows : t.Grows t') : Keeps t.node? t'.node? := by
  constructor
  · intro l found
    obtain ⟨n', found', becomes⟩ := grows.kept l _ found
    cases becomes
    exact found'
  · intro l target found
    obtain ⟨n', found', becomes⟩ := grows.kept l _ found
    cases becomes
    exact found'

theorem Grows.startOf {t t' : Tree} (grows : t.Grows t') (p : Path) :
    t'.startOf p = t.startOf p := by
  unfold Tree.startOf
  rw [grows.cwd]

theorem Grows.walk_directory {t t' : Tree} (grows : t.Grows t') {path : Bytes} {p : Place}
    (reached : t.walk .find path = .ok (.directory p)) :
    t'.walk .find path = .ok (.directory p) := by
  obtain ⟨q, spelled, trail⟩ := (t.walk_eq_ok_iff _ _ _).mp reached
  refine (t'.walk_eq_ok_iff _ _ _).mpr ⟨q, spelled, ?_⟩
  rw [grows.startOf]
  exact trail.settle (by decide) grows.keeps (.directory p)

theorem Grows.walk_node {t t' : Tree} (grows : t.Grows t') {path : Bytes} {l : Location} {n : Node}
    (reached : t.walk .find path = .ok (.node l n)) :
    ∃ n', t'.walk .find path = .ok (.node l n') ∧ n.Becomes n' := by
  obtain ⟨q, spelled, trail⟩ := (t.walk_eq_ok_iff _ _ _).mp reached
  obtain ⟨_, found, stops⟩ := trail.found
  obtain ⟨n', found', becomes⟩ := grows.kept l n found
  refine ⟨n', (t'.walk_eq_ok_iff _ _ _).mpr ⟨q, spelled, ?_⟩, becomes⟩
  rw [grows.startOf]
  exact trail.settle (by decide) grows.keeps (.node found' ((becomes.stops _).trans stops) n)

theorem Grows.has {t t' : Tree} (grows : t.Grows t') {path : Bytes} (there : t.has path = true) :
    t'.has path = true := by
  unfold Tree.has at there
  split at there
  · rename_i p reached
    rw [Tree.has, grows.walk_directory reached]
  · rename_i l n reached
    obtain ⟨n', reached', _⟩ := grows.walk_node reached
    rw [Tree.has, reached']
  · cases there

theorem Grows.readDir {t t' : Tree} (grows : t.Grows t') {path : Bytes}
    {entries : List (Name × Node)} (read : t.readDir path = .ok entries) :
    ∃ entries', t'.readDir path = .ok entries' ∧
      ∀ e ∈ entries, ∃ n', (e.1, n') ∈ entries' ∧ e.2.Becomes n' := by
  unfold Tree.readDir at read
  cases reached : t.walk .find path with
  | error f => rw [reached] at read; cases read
  | ok spot =>
    rw [reached] at read
    cases spot with
    | directory p =>
      cases read
      refine ⟨t'.listing p, ?_, grows.listed p⟩
      rw [Tree.readDir, grows.walk_directory reached]
      rfl
    | node l n => cases read
    | vacant l => cases read

end Tree

end RunLedger.File
