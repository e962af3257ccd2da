set_option autoImplicit false

namespace RunLedger.Text

/-- The 25 characters with the Unicode property `White_Space`. -/
def isWhite (c : Char) : Bool :=
  let n := c.toNat
  (0x09 ≤ n && n ≤ 0x0D) || n == 0x20 || n == 0x85 || n == 0xA0 || n == 0x1680 ||
    (0x2000 ≤ n && n ≤ 0x200A) || n == 0x2028 || n == 0x2029 || n == 0x202F || n == 0x205F ||
    n == 0x3000

/-- Cuts white space from both ends. -/
def trimChars (cs : List Char) : List Char :=
  ((cs.dropWhile isWhite).reverse.dropWhile isWhite).reverse

def trim (s : String) : String :=
  String.ofList (trimChars s.toList)

/-- A text that holds white space only. -/
def isBlank (s : String) : Bool :=
  s.toList.all isWhite

private theorem dropWhile_eq_nil_iff_all {α : Type} (p : α → Bool) (l : List α) :
    l.dropWhile p = [] ↔ l.all p = true := by
  induction l with
  | nil => simp
  | cons a l ih => by_cases h : p a = true <;> simp [h, ih]

private theorem all_dropWhile {α : Type} (p : α → Bool) (l : List α) :
    (l.dropWhile p).all p = l.all p := by
  induction l with
  | nil => rfl
  | cons a l ih => by_cases h : p a = true <;> simp [h, ih]

/-- A text is blank exactly if nothing is left of it when it is trimmed. -/
theorem isBlank_iff_trim (s : String) : isBlank s = true ↔ trim s = "" := by
  rw [isBlank, trim, ← String.toList_inj, String.toList_ofList, trimChars, String.toList_empty,
    List.reverse_eq_nil_iff, dropWhile_eq_nil_iff_all, List.all_reverse, all_dropWhile]

end RunLedger.Text
