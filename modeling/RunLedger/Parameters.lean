import RunLedger.Log
import RunLedger.Text.WhiteSpace

set_option autoImplicit false

namespace RunLedger

/-- A view from keys to texts, wherever these come from. A key that is not set has no text, and
readers apply their own defaults. -/
structure Parameters where
  /-- the text of a key that is set -/
  text? : String → Option String
  /-- the remarks on looking up a key -/
  remarks : String → List String

namespace Parameters

/-- Looks up a key. -/
def get (p : Parameters) (key : String) : Logged (Option String) :=
  ⟨p.text? key, (p.remarks key).map (⟨.debug, ·⟩)⟩

/-- Recording is off unless the parameter of this key is true when the run starts. -/
def enabledKey : String := "uid.tracking.enabled"

/-- The directory to write to; a relative one starts from the working directory. -/
def outputDirKey : String := "uid.tracking.output.dir"

def outputFileKey : String := "uid.tracking.output.file"

/-- No key is set. -/
def empty : Parameters :=
  ⟨fun _ => none, fun _ => []⟩

instance : Inhabited Parameters := ⟨empty⟩

/-- Reads `true` and `false` in any ASCII case, with white space around them or none. -/
def readFlag? (text : String) : Option Bool :=
  let word := (Text.trimChars text.toList).map Char.toLower
  if word = ['t', 'r', 'u', 'e'] then some true
  else if word = ['f', 'a', 'l', 's', 'e'] then some false
  else none

/-- The flag at a key. A text that is no flag is logged and counts as not set. -/
def getFlag (p : Parameters) (key : String) : Logged (Option Bool) := do
  match ← p.get key with
  | none => pure none
  | some text =>
    match readFlag? text with
    | some b => pure (some b)
    | none =>
      Logged.log .debug
        ("ignoring non-boolean value `" ++ text ++ "` for configuration key " ++ key)
      pure none

@[simp] theorem value_get (p : Parameters) (key : String) :
    (p.get key).value = p.text? key := rfl

/-- Logging aside, the flag at a key is the one that its text spells. -/
theorem value_getFlag (p : Parameters) (key : String) :
    (p.getFlag key).value = (p.text? key).bind readFlag? := by
  simp only [getFlag, Logged.value_bind, value_get]
  cases p.text? key with
  | none => rfl
  | some text => simp only [Option.bind_some]; cases readFlag? text <;> rfl

end Parameters

end RunLedger
