import RunLedger.Failure.Fault
import RunLedger.Text.Utf8

set_option autoImplicit false

namespace RunLedger.File

open Text

/-- The name of an entry of a directory. -/
abbrev Name := Bytes

/-- The byte that stands between the names of a path. -/
def separator : UInt8 := 0x2F

/-- Puts one path behind another one, by text alone. An absolute one stands for itself. -/
def join (left right : String) : String :=
  if right.toList.head? = some '/' then right
  else if left.toList = [] ∨ left.toList.getLast? = some '/' then left ++ right
  else left ++ "/" ++ right

inductive Step where
  /-- the directory itself -/
  | here
  /-- the directory above -/
  | up
  /-- the entry that has the name -/
  | name (n : Name)
  /-- the end of a path that asks for a directory -/
  | slash
  deriving DecidableEq, Repr

/-- What a path says. A path that is not absolute starts from the working directory. -/
structure Path where
  absolute : Bool
  steps : List Step
  deriving DecidableEq, Repr

namespace Path

/-- The parts of a path between its slashes. -/
def segments : Bytes → List Bytes
  | [] => [[]]
  | b :: r =>
    if b = separator then [] :: segments r
    else
      match segments r with
      | [] => [[b]]
      | s :: ss => (b :: s) :: ss

def step? (segment : Bytes) : Option Step :=
  if segment = [] then none
  else if segment = [0x2E] then some .here
  else if segment = [0x2E, 0x2E] then some .up
  else some (.name segment)

def ofBytes (bs : Bytes) : Path :=
  ⟨bs.head? = some separator,
    (segments bs).filterMap step? ++ if bs.getLast? = some separator then [.slash] else []⟩

/-- The greatest length of a path that the system takes. -/
def lengthLimit : Nat := 4095

/-- A path that can be handed to the system. -/
def ofBytes? (bs : Bytes) : Except Fault Path :=
  if 0 ∈ bs then .error .nulInPath
  else if bs = [] then .error .noEntry
  else if lengthLimit < bs.length then .error .nameTooLong
  else .ok (ofBytes bs)

/-- The steps that count where only the text is looked at. A step that stays in place counts at the
beginning of a relative path. -/
def textSteps (p : Path) : List Step :=
  let counts := fun s => s != .here && s != .slash
  match p.absolute, p.steps with
  | false, .here :: r => .here :: r.filter counts
  | _, steps => steps.filter counts

/-- The proper beginnings of a list that are not empty, the longest first; the list is given with
its last element first, and so are they. -/
def beginnings {α : Type} : List α → List (List α)
  | [] => []
  | [_] => []
  | _ :: r => r :: beginnings r

/-- The path and those that it begins with, as far as each is in a directory; the longest first. -/
def ancestors (p : Path) : List Path :=
  if p.textSteps = [] then []
  else p :: (beginnings p.textSteps.reverse).map fun s => ⟨p.absolute, s.reverse⟩

end Path

end RunLedger.File
