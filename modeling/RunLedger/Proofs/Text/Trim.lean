import Mathlib.Data.List.TakeWhile
import RunLedger.Text.WhiteSpace

set_option autoImplicit false

namespace RunLedger.Text

/-- There is nothing but white space. -/
def IsWhite (cs : List Char) : Prop :=
  ∀ c ∈ cs, isWhite c = true

instance : DecidablePred IsWhite := fun _ =>
  decidable_of_iff _ List.all_eq_true

theorem isBlank_iff_isWhite (s : String) : isBlank s = true ↔ IsWhite s.toList := by
  rw [isBlank, List.all_eq_true, IsWhite]

theorem trimChars_white_append {left : List Char} (white : IsWhite left) (cs : List Char) :
    trimChars (left ++ cs) = trimChars cs := by
  rw [trimChars, trimChars, List.dropWhile_append_of_pos white]

theorem trimChars_append_white (cs : List Char) {right : List Char} (white : IsWhite right) :
    trimChars (cs ++ right) = trimChars cs := by
  have reversed : ∀ c ∈ right.reverse, isWhite c = true := by
    intro c among
    exact white c (List.mem_reverse.mp among)
  rw [trimChars, trimChars, List.dropWhile_append]
  split
  · rename_i nothing
    have all : right.dropWhile isWhite = [] := List.dropWhile_eq_nil_iff.mpr white
    rw [all, List.isEmpty_iff.mp nothing]
  · rw [List.reverse_append, List.dropWhile_append_of_pos reversed]

/-- White space around a text is of no account. -/
theorem trimChars_around {left right : List Char} (before : IsWhite left) (behind : IsWhite right)
    (cs : List Char) : trimChars (left ++ cs ++ right) = trimChars cs := by
  rw [trimChars_append_white _ behind, trimChars_white_append before]

theorem trimChars_eq_nil_iff (cs : List Char) : trimChars cs = [] ↔ IsWhite cs := by
  have blank := isBlank_iff_trim (String.ofList cs)
  rw [isBlank_iff_isWhite, String.toList_ofList, trim, String.toList_ofList] at blank
  rw [blank, ← String.toList_inj, String.toList_ofList, String.toList_empty]

theorem trimChars_of_solid {cs : List Char} (solid : ∀ c ∈ cs, isWhite c = false) :
    trimChars cs = cs := by
  have whole {ds : List Char} (solid : ∀ c ∈ ds, isWhite c = false) :
      ds.dropWhile isWhite = ds := by
    cases ds with
    | nil => rfl
    | cons c ds =>
      have first := solid c List.mem_cons_self
      exact List.dropWhile_cons_of_neg (by simp [first])
  have reversed : ∀ c ∈ cs.reverse, isWhite c = false := by
    intro c among
    exact solid c (List.mem_reverse.mp among)
  rw [trimChars, whole solid, whole reversed, List.reverse_reverse]

/-- A text is what is left of it, between white space. -/
theorem exists_white_around (cs : List Char) :
    ∃ left right, IsWhite left ∧ IsWhite right ∧ cs = left ++ trimChars cs ++ right := by
  have before := List.takeWhile_append_dropWhile (p := isWhite) (l := cs)
  have behind := List.takeWhile_append_dropWhile (p := isWhite)
    (l := (cs.dropWhile isWhite).reverse)
  refine ⟨cs.takeWhile isWhite, ((cs.dropWhile isWhite).reverse.takeWhile isWhite).reverse,
    ?_, ?_, ?_⟩
  · intro c among
    exact List.mem_takeWhile_imp among
  · intro c among
    exact List.mem_takeWhile_imp (List.mem_reverse.mp among)
  · have rest : cs.dropWhile isWhite = trimChars cs ++
        ((cs.dropWhile isWhite).reverse.takeWhile isWhite).reverse := by
      rw [trimChars, ← List.reverse_append, behind, List.reverse_reverse]
    rw [List.append_assoc, ← rest, before]

theorem trimChars_trimChars (cs : List Char) : trimChars (trimChars cs) = trimChars cs := by
  obtain ⟨left, right, before, behind, parts⟩ := exists_white_around cs
  calc trimChars (trimChars cs)
      = trimChars (left ++ trimChars cs ++ right) := (trimChars_around before behind _).symm
    _ = trimChars cs := by rw [← parts]

end RunLedger.Text
