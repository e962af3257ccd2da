import RunLedger.File.Walk

set_option autoImplicit false

namespace RunLedger.File

open Text

namespace Tree

/-- Whether something is at a path; a link has to lead somewhere. -/
def has (t : Tree) (path : Bytes) : Bool :=
  match t.walk .find path with
  | .ok (.directory _) | .ok (.node _ _) => true
  | _ => false

def isDirectoryPath (t : Tree) (p : Path) : Bool :=
  match t.walkPath .find p with
  | .ok (.directory _) => true
  | _ => false

/-- The text of a location. -/
def pathOf (l : Location) : Bytes :=
  match l with
  | [] => [separator]
  | l => l.reverse.flatMap (separator :: ·)

/-- The path of the working directory, unless it was removed. -/
def currentDir (t : Tree) : Except Fault Bytes :=
  if t.cwd.removed = 0 then .ok (pathOf t.cwd.live) else .error .noEntry

/-- The entries of the directory at a path. -/
def readDir (t : Tree) (path : Bytes) : Except Fault (List (Name × Node)) := do
  match ← t.walk .find path with
  | .directory p => .ok (t.listing p)
  | .node _ _ => .error .notDirectory
  | .vacant _ => .error .noEntry

/-- The content of the file at a path. -/
def readFile (t : Tree) (path : Bytes) : Except Fault Bytes := do
  match ← t.walk .find path with
  | .directory _ => .error .isDirectory
  | .node _ (.file content) => .ok content
  | .node _ _ => .ok []
  | .vacant _ => .error .noEntry

/-- The content of the file at a path, which has to be text. -/
def readText (t : Tree) (path : Bytes) : Except Fault String := do
  match Utf8.decode? (← t.readFile path) with
  | some s => .ok s
  | none => .error .notText

/-- What an opened file is. -/
inductive Handle where
  | file (l : Location)
  | device (d : Device)
  deriving DecidableEq, Repr

/-- Opens a file to be written from its beginning. What it held is gone, and it is made if it is
not there. -/
def create (t : Tree) (path : Bytes) : Except Fault (Handle × Tree) := do
  match ← t.walk .openFile path with
  | .directory _ => .error .isDirectory
  | .node _ (.device d) => .ok (.device d, t)
  | .node l _ | .vacant l => .ok (.file l, t.set l (.file []))

/-- Writes to a file that was just opened. -/
def write (t : Tree) (h : Handle) (content : Bytes) : Except Fault Tree :=
  match h with
  | .file l => .ok (t.set l (.file content))
  | .device .null => .ok t
  | .device .full => if content = [] then .ok t else .error .noSpace

/-- Makes a directory in one that is there. -/
def makeDirectory (t : Tree) (p : Path) : Except Fault Tree := do
  match ← t.walkPath .make p with
  | .directory _ | .node _ _ => .error .alreadyThere
  | .vacant l => .ok (t.set l .directory)

/-- A fault that is none, because the directory to be made is there. -/
def isMade (t : Tree) (p : Path) (f : Fault) : Bool :=
  f = .alreadyThere && t.isDirectoryPath p

/-- Makes the first of the paths that can be made. Gives those before it, the last one first. -/
def climb (t : Tree) : List Path → Except Fault (List Path × Tree)
  | [] => .ok ([], t)
  | p :: r =>
    match t.makeDirectory p with
    | .ok t => .ok ([], t)
    | .error f =>
      if f = .noEntry then (climb t r).map fun (todo, t) => (todo ++ [p], t)
      else if t.isMade p f then .ok ([], t)
      else .error f

/-- Makes the directories one after the other, up to a fault. -/
def descend (t : Tree) : List Path → Tree × Option Fault
  | [] => (t, none)
  | p :: r =>
    match t.makeDirectory p with
    | .ok t => descend t r
    | .error f => if t.isMade p f then descend t r else (t, some f)

/-- Makes a directory and those around it. -/
def makeDirectories (t : Tree) (path : Bytes) : Tree × Option Fault :=
  match (Path.ofBytes path).ancestors, Path.ofBytes? path with
  | [], _ => (t, none)
  | _ :: _, .error f => (t, some f)
  | ps, .ok _ =>
    match climb t ps with
    | .error f => (t, some f)
    | .ok (todo, t) => descend t todo

end Tree

end RunLedger.File
