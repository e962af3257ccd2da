import RunLedger.Failure.Fault
import RunLedger.Text.Utf8

set_option autoImplicit false

namespace RunLedger.Output

open Text

inductive ResolveError where
  | currentDir (cause : Fault)
  | currentDirNotText (path : Bytes)
  | readDir (dir : String) (cause : Fault)
  | createDir (dir : String) (cause : Fault)
  deriving DecidableEq, Repr

def ResolveError.chain : ResolveError → Chain
  | .currentDir cause => cause.chain.under "failed to determine the current working directory"
  | .currentDirNotText path =>
    ⟨"current working directory is not valid UTF-8: " ++ Utf8.decodeLossy path, []⟩
  | .readDir dir cause => cause.chain.under ("failed to read directory " ++ dir)
  | .createDir dir cause => cause.chain.under ("failed to create output directory " ++ dir)

inductive WriteError where
  | resolve (cause : ResolveError)
  | create (file : String) (cause : Fault)
  | write (file : String) (cause : Fault)
  deriving DecidableEq, Repr

def WriteError.chain : WriteError → Chain
  | .resolve cause => cause.chain.under "failed to resolve output file"
  | .create file cause => cause.chain.under ("failed to create output file " ++ file)
  | .write file cause =>
    cause.chain.under ("failed to write unique IDs to output file " ++ file)

end RunLedger.Output
