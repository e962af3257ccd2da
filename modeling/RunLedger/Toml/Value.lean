import RunLedger.Binary64
import RunLedger.Entries
import RunLedger.Toml.Moment

set_option autoImplicit false

namespace RunLedger.Toml

inductive Value where
  | string (s : String)
  | integer (i : Int)
  | float (x : Binary64)
  | boolean (b : Bool)
  | moment (m : Moment)
  | array (items : List Value)
  | table (entries : List (String × Value))
  deriving Repr

instance : Inhabited Value := ⟨.boolean false⟩

/-- A table has its entries in the order of their keys. -/
abbrev Table := Entries Value

/-- A key that may stand without quotes. -/
def isBareKey (cs : List Char) : Bool :=
  !cs.isEmpty && cs.all fun c => c.isAlphanum || c == '-' || c == '_'

end RunLedger.Toml
