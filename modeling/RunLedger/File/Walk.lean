import RunLedger.File.Tree

set_option autoImplicit false

namespace RunLedger.File

open Text

/-- What a path is wanted for. -/
inductive Purpose where
  /-- something that is there, behind a link if there is one -/
  | find
  /-- a directory, a link or a name to be made; a link at the end is not followed -/
  | make
  /-- a file to be opened, and made if it is not there -/
  | openFile
  deriving DecidableEq, Repr

/-- Where a walk ends. -/
inductive Spot where
  | directory (p : Place)
  /-- a node that is no directory -/
  | node (l : Location) (n : Node)
  /-- a name that its directory does not have -/
  | vacant (l : Location)
  deriving DecidableEq, Repr

namespace Walk

/-- How many bytes a name may have. -/
def nameLimit : Nat := 255

/-- How many links may be followed. -/
def linkLimit : Nat := 40

/-- Whether a name is the last one of a path. A directory to be made may have a slash behind it. -/
def isLast (u : Purpose) (rest : List Step) : Bool :=
  rest.isEmpty || (u = .make && rest = [.slash])

/-- How a walk goes on, from a place and by some steps. The parts of the tree at the location of the
place and at those around it come with it, so that a step looks at the names of one directory
only. -/
abbrev Course := Place → List (Trie Node) → List Step → Except Fault Spot

/-- Goes on behind a link that was met in the directory of a place. -/
def behind (go : Course) (p : Place) (parts : List (Trie Node)) (target : Bytes)
    (rest : List Step) : Except Fault Spot :=
  let path := Path.ofBytes target
  if path.absolute then go .root [] (path.steps ++ rest) else go p parts (path.steps ++ rest)

/-- Takes the steps from a place, where `follow` goes on behind a link. -/
def steps (t : Tree) (u : Purpose) (follow : Course) : Course
  | p, _, [] => .ok (.directory p)
  | p, parts, .here :: rest | p, parts, .slash :: rest => steps t u follow p parts rest
  | p, parts, .up :: rest =>
    steps t u follow p.up (if p.removed = 0 then parts.tail else parts) rest
  | p, parts, .name n :: rest =>
    if u = .openFile ∧ rest = [.slash] then .error .isDirectory
    else if p.removed ≠ 0 then .error .noEntry
    else if nameLimit < n.length then .error .nameTooLong
    else
      let l := n :: p.live
      let part := Trie.child (t.nearest parts).inside n
      match part.value with
      | none => if isLast u rest then .ok (.vacant l) else .error .noEntry
      | some .directory => steps t u follow ⟨l, 0⟩ (part :: parts) rest
      | some (.link target) =>
        if isLast u rest ∧ u = .make then .ok (.node l (.link target))
        else behind follow p parts target rest
      | some node => if isLast u rest then .ok (.node l node) else .error .notDirectory

/-- Takes the steps from a place, through so many links at most. -/
def within (t : Tree) (u : Purpose) : Nat → Course
  | 0 => steps t u fun _ _ _ => .error .tooManyLinks
  | n + 1 => steps t u (within t u n)

end Walk

namespace Tree

/-- Where a path leads. -/
def walkPath (t : Tree) (u : Purpose) (p : Path) : Except Fault Spot :=
  let start := if p.absolute then .root else t.cwd
  Walk.within t u Walk.linkLimit start (t.parts start.live) p.steps

/-- Where the path that a text spells leads. -/
def walk (t : Tree) (u : Purpose) (path : Bytes) : Except Fault Spot := do
  t.walkPath u (← Path.ofBytes? path)

end Tree

end RunLedger.File
