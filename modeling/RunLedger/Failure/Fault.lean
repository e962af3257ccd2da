import RunLedger.Failure.Chain
import RunLedger.Failure.SystemText

set_option autoImplicit false

namespace RunLedger

/-- Why an access failed. -/
inductive Fault where
  /-- the operating system refused it with an error number -/
  | system (number : Int)
  /-- a path holds a NUL, so it cannot be handed to the system -/
  | nulInPath
  /-- what was read as text is not UTF-8 -/
  | notText
  /-- a directory lists a name that is not text; the path to it is shown as far as it can be -/
  | entryNotText (path : String)
  /-- any other cause, with causes of its own -/
  | other (message : String) (causes : List String)
  deriving DecidableEq, Repr

namespace Fault

def noEntry : Fault := .system 2
def alreadyThere : Fault := .system 17
def notDirectory : Fault := .system 20
def isDirectory : Fault := .system 21
def noSpace : Fault := .system 28
def nameTooLong : Fault := .system 36
def tooManyLinks : Fault := .system 40

def chain : Fault → Chain
  | .system n => ⟨Failure.systemText n ++ " (os error " ++ toString n ++ ")", []⟩
  | .nulInPath => ⟨"file name contained an unexpected NUL byte", []⟩
  | .notText => ⟨"stream did not contain valid UTF-8", []⟩
  | .entryNotText path =>
    ⟨"PathBuf contains invalid UTF-8: " ++ path, ["Path contains invalid UTF-8"]⟩
  | .other message causes => ⟨message, causes⟩

end Fault

end RunLedger
