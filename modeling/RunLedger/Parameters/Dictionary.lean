import RunLedger.Entries
import RunLedger.Parameters

set_option autoImplicit false

namespace RunLedger

structure Dictionary where
  entries : Entries String
  ordered : entries.Ordered
  deriving DecidableEq

namespace Dictionary

def empty : Dictionary :=
  ⟨[], Entries.ordered_nil⟩

instance : Inhabited Dictionary := ⟨empty⟩

def insert (d : Dictionary) (key text : String) : Dictionary :=
  ⟨d.entries.insert key text, d.ordered.insert key text⟩

/-- The last text given for a key is the one that it has. -/
def ofPairs (ps : List (String × String)) : Dictionary :=
  ⟨Entries.ofPairs ps, Entries.ordered_ofPairs ps⟩

def get? (d : Dictionary) (key : String) : Option String :=
  d.entries.get? key

def size (d : Dictionary) : Nat :=
  d.entries.length

def isEmpty (d : Dictionary) : Bool :=
  d.entries.isEmpty

def parameters (d : Dictionary) : Parameters :=
  ⟨d.get?, fun _ => []⟩

@[simp] theorem get?_insert (d : Dictionary) (key text key' : String) :
    (d.insert key text).get? key' = if key' = key then some text else d.get? key' :=
  Entries.get?_insert ..

@[simp] theorem get_parameters (d : Dictionary) (key : String) :
    d.parameters.get key = pure (d.get? key) := rfl

end Dictionary

end RunLedger
