import RunLedger.File.Access

set_option autoImplicit false

namespace RunLedger.File.Tree

open Text

/-- A tree with nothing in it but the two devices, where such are looked for. -/
def withDevices : Tree :=
  let dev : Location := [Utf8.encode "dev"]
  let bare : Tree := ⟨.empty, .root⟩
  ((bare.set dev .directory).set (Utf8.encode "null" :: dev) (.device .null)).set
    (Utf8.encode "full" :: dev) (.device .full)

/-- The path of the directory that a path's last name is in. -/
def above (path : Bytes) : Bytes :=
  (path.reverse.dropWhile (· != separator)).reverse

def addDirectory (t : Tree) (path : Bytes) : Tree :=
  (t.makeDirectories path).1

/-- Writes a file, with the directories around it. -/
def addFile (t : Tree) (path content : Bytes) : Tree :=
  let t := t.addDirectory (above path)
  match t.create path with
  | .error _ => t
  | .ok (h, t) =>
    match t.write h content with
    | .error _ => t
    | .ok t => t

def addLink (t : Tree) (path target : Bytes) : Tree :=
  match t.walk .make path with
  | .ok (.vacant l) => t.set l (.link target)
  | _ => t

/-- Removes what is at a path, but not what a link there leads to. -/
def remove (t : Tree) (path : Bytes) : Tree :=
  match t.walk .make path with
  | .ok (.directory p) => t.erase p.live
  | .ok (.node l _) => t.erase l
  | _ => t

/-- Changes the working directory. -/
def enter (t : Tree) (path : Bytes) : Tree :=
  match t.walk .find path with
  | .ok (.directory p) => { t with cwd := p }
  | _ => t

/-- The path that goes through the names. -/
def pathThrough (names : List Name) : Bytes :=
  (names.flatMap (separator :: ·)).drop 1

/-- What is below a directory, in the order of the paths from there. -/
def below (t : Tree) (dir : Location) : List (Bytes × Node) :=
  let entries := (Trie.listInside (t.part dir).inside).map fun (names, n) => (pathThrough names, n)
  entries.mergeSort fun a b => decide (a.1 ≤ b.1)

end RunLedger.File.Tree
