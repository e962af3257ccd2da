import RunLedger.File.Access
import RunLedger.Output.Error
import RunLedger.Parameters

set_option autoImplicit false

namespace RunLedger.Output

open File Text

/-- A text that is set to something, which white space is not. -/
def notBlank (text : Option String) : Option String :=
  text.filter fun s => !isBlank s

/-- The rule that selected a directory. -/
inductive DirKind where
  | custom
  | maven
  | gradle
  | workingDir
  deriving DecidableEq, Repr

def DirKind.label : DirKind → String
  | custom => "custom"
  | maven => "maven"
  | gradle => "gradle"
  | workingDir => "working directory"

/-- A selected directory. It may not be there yet. -/
structure Dir where
  path : String
  kind : DirKind
  deriving DecidableEq, Repr

namespace Dir

/-- The build file in the presence of which `mavenDir` is written to. -/
def mavenFile : String := "pom.xml"

def mavenDir : String := "target"

/-- How the name of a build file ends in the presence of which `gradleDir` is written to. -/
def gradleEndings : List String := [".gradle", ".gradle.kts"]

def gradleDir : String := "build"

def isGradleName (name : String) : Bool :=
  gradleEndings.any fun e => e.toList.isSuffixOf name.toList

def isFile : Node → Bool
  | .file _ => true
  | _ => false

/-- The path of an entry as it is shown, in a directory that has the given path. -/
def shownEntry (dir : String) (n : Name) : String :=
  Utf8.decodeLossy (Utf8.encode (File.join dir "") ++ n)

/-- Whether a regular file among what a directory delivers is a build file. They are looked at one
after the other, up to the first build file; a fault before it, or a name that is not text, ends the
look. -/
def findGradleFile (dir : String) : List (Except Fault (Name × Node)) → Except Fault Bool
  | [] => .ok false
  | .error f :: _ => .error f
  | .ok (n, node) :: r =>
    match Utf8.decode? n with
    | none => .error (.entryNotText (shownEntry dir n))
    | some name => if isFile node ∧ isGradleName name then .ok true else findGradleFile dir r

/-- The look through entries that can all be read. -/
def hasGradleFile (dir : String) (entries : List (Name × Node)) : Except Fault Bool :=
  findGradleFile dir (entries.map .ok)

theorem hasGradleFile_nil (dir : String) : hasGradleFile dir [] = .ok false := rfl

theorem hasGradleFile_cons_eq (dir : String) (n : Name) (node : Node) (r : List (Name × Node)) :
    hasGradleFile dir ((n, node) :: r) =
      match Utf8.decode? n with
      | none => .error (.entryNotText (shownEntry dir n))
      | some name =>
        if isFile node ∧ isGradleName name then .ok true else hasGradleFile dir r := rfl

/-- What is seen of the files where a directory is selected. -/
structure View where
  /-- whether something is at a path; a link has to lead somewhere -/
  has : Bytes → Bool
  /-- what the directory at a path delivers: its entries, and faults in reading them -/
  readDir : Bytes → Except Fault (List (Except Fault (Name × Node)))

/-- All entries of a tree can be read. -/
def View.ofTree (t : Tree) : View :=
  ⟨t.has, fun path => (t.readDir path).map (·.map .ok)⟩

@[simp] theorem View.has_ofTree (t : Tree) (path : Bytes) : (ofTree t).has path = t.has path := rfl

/-- The directory that build files select. -/
def detectIn (v : View) (cwd : String) : Except ResolveError Dir :=
  if v.has (Utf8.encode (join cwd mavenFile)) then .ok ⟨join cwd mavenDir, .maven⟩
  else
    match v.readDir (Utf8.encode cwd) >>= findGradleFile cwd with
    | .error f => .error (.readDir cwd f)
    | .ok true => .ok ⟨join cwd gradleDir, .gradle⟩
    | .ok false => .ok ⟨cwd, .workingDir⟩

def selectIn (v : View) (cwd : String) (p : Parameters) : Logged (Except ResolveError Dir) := do
  match notBlank (← p.get Parameters.outputDirKey) with
  | some dir => pure (.ok ⟨join cwd dir, .custom⟩)
  | none => pure (detectIn v cwd)

def detect (t : Tree) (cwd : String) : Except ResolveError Dir :=
  detectIn (.ofTree t) cwd

/-- A parameter can name the directory; otherwise build files select it. -/
def select (t : Tree) (cwd : String) (p : Parameters) : Logged (Except ResolveError Dir) :=
  selectIn (.ofTree t) cwd p

/-- In a tree, build files are looked for among the entries of the directory. -/
theorem detect_eq (t : Tree) (cwd : String) :
    detect t cwd =
      if t.has (Utf8.encode (join cwd mavenFile)) then .ok ⟨join cwd mavenDir, .maven⟩
      else
        match t.readDir (Utf8.encode cwd) >>= hasGradleFile cwd with
        | .error f => .error (.readDir cwd f)
        | .ok true => .ok ⟨join cwd gradleDir, .gradle⟩
        | .ok false => .ok ⟨cwd, .workingDir⟩ := by
  have looked : (View.ofTree t).readDir (Utf8.encode cwd) >>= findGradleFile cwd =
      t.readDir (Utf8.encode cwd) >>= hasGradleFile cwd := by
    dsimp only [View.ofTree]
    cases t.readDir (Utf8.encode cwd) <;> rfl
  rw [detect, detectIn, looked]
  rfl

end Dir

end RunLedger.Output
