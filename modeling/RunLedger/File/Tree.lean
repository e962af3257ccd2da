import RunLedger.File.Trie
/-
A tree of files, with the working directory of a process in it. Directories list their entries in
the order in which these were made. A directory that was removed stays a place as long as it is the
working directory: nothing is in it and nothing can be made in it, but it is still below the
directory that it was in.
-/

set_option autoImplicit false

namespace RunLedger.File

open Text

/-- A file that keeps nothing: what is written to it vanishes or does not fit. -/
inductive Device where
  | null
  | full
  deriving DecidableEq, Repr

inductive Node where
  | directory
  | file (content : Bytes)
  | link (target : Bytes)
  | device (d : Device)
  deriving DecidableEq, Repr

/-- Where a node is: its name and those of the directories around it, the nearest first. -/
abbrev Location := List Name

/-- Where a walk stands: some removed directories below one that is there. -/
structure Place where
  live : Location
  removed : Nat
  deriving DecidableEq, Repr

namespace Place

def root : Place :=
  ⟨[], 0⟩

/-- The directory above. The root is above itself. -/
def up (p : Place) : Place :=
  match p.removed with
  | 0 => ⟨p.live.tail, 0⟩
  | n + 1 => ⟨p.live, n⟩

end Place

structure Tree where
  /-- the nodes but the root, by their names from the root -/
  nodes : Trie Node
  cwd : Place

namespace Tree

/-- What is at a location. The root is there, and is a directory. -/
def node? (t : Tree) (l : Location) : Option Node :=
  if l = [] then some .directory else t.nodes.get? l.reverse

/-- Puts a node in its place, behind all others of its directory if there was none. -/
def set (t : Tree) (l : Location) (n : Node) : Tree :=
  { t with nodes := t.nodes.insert l.reverse n }

theorem node?_set (t : Tree) {l : Location} (n : Node) (hl : l ≠ []) (l' : Location) :
    (t.set l n).node? l' = if l' = l then some n else t.node? l' := by
  simp only [node?, set, Trie.get?_insert, List.reverse_inj]
  by_cases h : l' = []
  · subst h
    simp [hl.symm]
  · simp [h]

/-- What the tree has at a location and below it. -/
def part (t : Tree) (l : Location) : Trie Node :=
  t.nodes.descend l.reverse

theorem part_cons (t : Tree) (n : Name) (l : Location) :
    t.part (n :: l) = Trie.child (t.part l).inside n := by
  rw [part, List.reverse_cons, Trie.descend_concat, part]

theorem value_part (t : Tree) {l : Location} (hl : l ≠ []) : (t.part l).value = t.node? l := by
  rw [node?, if_neg hl]
  rfl

/-- The first of some parts. Where there is none, it is the whole. -/
def nearest (t : Tree) (parts : List (Trie Node)) : Trie Node :=
  parts.headD t.nodes

/-- The parts at a location and at those around it, the nearest first. Each is found in the one
around it. -/
def parts (t : Tree) : Location → List (Trie Node)
  | [] => []
  | n :: l =>
    let around := t.parts l
    Trie.child (t.nearest around).inside n :: around

theorem nearest_parts (t : Tree) (l : Location) : t.nearest (t.parts l) = t.part l := by
  induction l with
  | nil => rfl
  | cons n l ih => rw [part_cons, ← ih]; rfl

/-- The parts at the location above are those that remain without the nearest. -/
theorem parts_tail (t : Tree) (l : Location) : t.parts l.tail = (t.parts l).tail := by
  cases l <;> rfl

theorem value_child_nearest (t : Tree) (n : Name) (l : Location) :
    (Trie.child (t.nearest (t.parts l)).inside n).value = t.node? (n :: l) := by
  rw [nearest_parts, ← part_cons, value_part t (List.cons_ne_nil n l)]

/-- The entries of the directory of a place. Nothing is in a removed one. -/
def listing (t : Tree) (p : Place) : List (Name × Node) :=
  if p.removed = 0 then
    (t.part p.live).inside.filterMap fun (name, c) => c.value.map (name, ·)
  else []

/-- What becomes of a place when a location and all below it are removed. -/
def placeWithout (l : Location) (p : Place) : Place :=
  if l.isSuffixOf p.live then ⟨l.tail, p.removed + (p.live.length - l.length) + 1⟩ else p

/-- Removes a location and all below it. -/
def erase (t : Tree) (l : Location) : Tree :=
  ⟨t.nodes.remove l.reverse, placeWithout l t.cwd⟩

end Tree

end RunLedger.File
