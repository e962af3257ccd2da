import RunLedger.Output.Dir

set_option autoImplicit false

namespace RunLedger.Output

open File Text

def defaultFileName : String := "unique-test-ids.txt"

def fileName (p : Parameters) : Logged String := do
  return (notBlank (← p.get Parameters.outputFileKey)).getD defaultFileName

/-- The path of the working directory. -/
def currentDir (t : Tree) : Except ResolveError String :=
  match t.currentDir with
  | .error f => .error (.currentDir f)
  | .ok path =>
    match Utf8.decode? path with
    | some s => .ok s
    | none => .error (.currentDirNotText path)

/-- Makes the directory of the given path if nothing is there. -/
def prepare (t : Tree) (dir : String) : Tree × Option Fault :=
  if t.has (Utf8.encode dir) then (t, none) else t.makeDirectories (Utf8.encode dir)

/-- The path of the output file. Its directory is made, but not the file. -/
def resolve (t : Tree) (cwd : String) (p : Parameters) :
    Logged (Except ResolveError String × Tree) := do
  let name ← fileName p
  match ← Dir.select t cwd p with
  | .error e => pure (.error e, t)
  | .ok dir =>
    Logged.log .debug ("selected " ++ dir.kind.label ++ " output directory " ++ dir.path)
    match prepare t dir.path with
    | (t, some f) => pure (.error (.createDir dir.path f), t)
    | (t, none) => pure (.ok (join dir.path name), t)

/-- The lines of a file that holds the ids. -/
def content (ids : List String) : Bytes :=
  ids.flatMap fun i => Utf8.encode i ++ [0x0A]

/-- Writes the ids to the file at a path, which keeps nothing of what it held. -/
def writeFile (t : Tree) (file : String) (ids : List String) : Except WriteError Unit × Tree :=
  match t.create (Utf8.encode file) with
  | .error f => (.error (.create file f), t)
  | .ok (h, t) =>
    match t.write h (content ids) with
    | .error f => (.error (.write file f), t)
    | .ok t => (.ok (), t)

/-- Writes the ids to the output file, and gives its path. -/
def write (t : Tree) (cwd : String) (p : Parameters) (ids : List String) :
    Logged (Except WriteError String × Tree) := do
  match ← resolve t cwd p with
  | (.error e, t) => pure (.error (.resolve e), t)
  | (.ok file, t) =>
    Logged.log .debug ("writing " ++ toString ids.length ++ " unique IDs to output file " ++ file)
    match writeFile t file ids with
    | (.error e, t) => pure (.error e, t)
    | (.ok (), t) => pure (.ok file, t)

end RunLedger.Output
