import Mathlib.Data.String.Basic
import RunLedger.Text.Utf8.Lemmas

set_option autoImplicit false

namespace RunLedger.Text.Utf8

/-- No ASCII byte goes on with an unfinished character. -/
def Partial.NoAscii (q : Partial) : Prop :=
  0x80 ≤ q.low

theorem noAscii_start {b : UInt8} {q : Partial} (begins : start b = .inr q) : q.NoAscii := by
  unfold start at begins
  split at begins
  · cases begins
  split at begins
  · cases begins
  split at begins
  · rw [← Sum.inr.inj begins, Partial.NoAscii]
    dsimp only
    decide
  split at begins
  · rw [← Sum.inr.inj begins, Partial.NoAscii]
    dsimp only
    split <;> decide
  split at begins
  · rw [← Sum.inr.inj begins, Partial.NoAscii]
    dsimp only
    split <;> decide
  · cases begins

theorem noAscii_extend {q q' : Partial} {b : UInt8} (goes : q.extend b = some (.inr q')) :
    q'.NoAscii := by
  unfold Partial.extend at goes
  split at goes
  · dsimp only at goes
    split at goes
    · cases goes
    · rw [← Sum.inr.inj (Option.some.inj goes), Partial.NoAscii]
      dsimp only
      decide
  · cases goes

theorem start_ascii {b : UInt8} (ascii : b < 0x80) :
    start b = .inl (.char (Char.ofNat b.toNat)) := by
  rw [start, if_pos ascii]

theorem extend_ascii {q : Partial} (closed : q.NoAscii) {b : UInt8} (ascii : b < 0x80) :
    q.extend b = none := by
  have below : ¬ (q.low ≤ b ∧ b ≤ q.high) := by
    intro fits
    have high : (0x80 : UInt8) ≤ b := UInt8.le_trans closed fits.1
    exact absurd ascii (UInt8.not_lt.mpr high)
  rw [Partial.extend, if_neg below]

/-- An ASCII byte is a character of its own, and ends what stands in front of it. -/
theorem pieces_ascii {b : UInt8} (ascii : b < 0x80) (p : Option Partial)
    (closed : ∀ q, p = some q → q.NoAscii) (front back : Bytes) :
    pieces p (front ++ b :: back) =
      pieces p front ++ .char (Char.ofNat b.toNat) :: pieces none back := by
  induction front generalizing p with
  | nil =>
    cases p with
    | none =>
      simp only [List.nil_append, pieces, start_ascii ascii]
    | some q =>
      have ends := extend_ascii (closed q rfl) ascii
      simp only [List.nil_append, List.cons_append, pieces, ends, start_ascii ascii]
  | cons f front ih =>
    have none_closed : ∀ q : Partial, none = some q → q.NoAscii := by
      intro q none_there
      cases none_there
    rw [List.cons_append]
    cases p with
    | none =>
      cases begins : start f with
      | inl piece => simp only [pieces, begins, ih none none_closed, List.cons_append]
      | inr q =>
        have q_closed : ∀ q', some q = some q' → q'.NoAscii := by
          intro q' same
          cases same
          exact noAscii_start begins
        simp only [pieces, begins, ih (some q) q_closed]
    | some q =>
      cases goes : q.extend f with
      | some more =>
        cases more with
        | inl piece => simp only [pieces, goes, ih none none_closed, List.cons_append]
        | inr q' =>
          have q'_closed : ∀ q'', some q' = some q'' → q''.NoAscii := by
            intro q'' same
            cases same
            exact noAscii_extend goes
          simp only [pieces, goes, ih (some q') q'_closed]
      | none =>
        cases begins : start f with
        | inl piece => simp only [pieces, goes, begins, ih none none_closed, List.cons_append]
        | inr q' =>
          have q'_closed : ∀ q'', some q' = some q'' → q''.NoAscii := by
            intro q'' same
            cases same
            exact noAscii_start begins
          simp only [pieces, goes, begins, ih (some q') q'_closed, List.cons_append]

/-- Bytes with an ASCII byte in them are text exactly if both sides of it are, and then say what
both sides say, with its character in between. -/
theorem decode?_ascii {b : UInt8} (ascii : b < 0x80) (front back : Bytes) :
    decode? (front ++ b :: back) = (decode? front).bind fun one => (decode? back).map fun other =>
      one ++ String.singleton (Char.ofNat b.toNat) ++ other := by
  have closed : ∀ q, (none : Option Partial) = some q → q.NoAscii := by
    intro q none_there
    cases none_there
  rw [decode?, decode?, decode?, pieces_ascii ascii none closed, List.mapM_append, List.mapM_cons]
  cases (pieces none front).mapM Piece.char? with
  | none => rfl
  | some one =>
    cases (pieces none back).mapM Piece.char? with
    | none => rfl
    | some other =>
      refine congrArg some (String.toList_inj.mp ?_)
      simp

theorem encode_inj {s t : String} : encode s = encode t ↔ s = t := by
  constructor
  · intro same
    have read : decode? (encode s) = decode? (encode t) := by rw [same]
    rw [decode?_encode, decode?_encode] at read
    exact Option.some.inj read
  · intro same
    rw [same]

/-- An ASCII byte in what spells a text stands for its character, and parts what is in front of it
from what is behind it. -/
theorem eq_append_of_encode_eq {b : UInt8} (ascii : b < 0x80) {s : String} {front back : Bytes}
    (spelled : encode s = front ++ b :: back) :
    ∃ one other, decode? front = some one ∧ decode? back = some other ∧
      s = one ++ String.singleton (Char.ofNat b.toNat) ++ other := by
  have read := decode?_encode s
  rw [spelled, decode?_ascii ascii, Option.bind_eq_some_iff] at read
  obtain ⟨one, first, read⟩ := read
  obtain ⟨other, second, whole⟩ := Option.map_eq_some_iff.mp read
  exact ⟨one, other, first, second, whole.symm⟩

theorem mem_toList_of_mem_encode {b : UInt8} (ascii : b < 0x80) {s : String}
    (among : b ∈ encode s) : Char.ofNat b.toNat ∈ s.toList := by
  obtain ⟨front, back, spelled⟩ := List.append_of_mem among
  obtain ⟨one, other, _, _, rfl⟩ := eq_append_of_encode_eq ascii spelled
  simp

theorem byte_cons_lt_iff {m n : Nat} (hm : m < 256) (hn : n < 256) (rest rest' : Bytes) :
    UInt8.ofNat m :: rest < UInt8.ofNat n :: rest' ↔ m < n ∨ m = n ∧ rest < rest' := by
  have value {k : Nat} (small : k < 256) : (UInt8.ofNat k).toNat = k := by
    rw [UInt8.toNat_ofNat', Nat.mod_eq_of_lt small]
  rw [List.cons_lt_cons_iff, UInt8.lt_iff_toNat_lt, ← UInt8.toNat_inj, value hm, value hn]

/-- The bytes of a character come before those of a greater one, whatever follows them. -/
theorem utf8EncodeChar_append_lt {c d : Char} (less : c < d) (rest rest' : Bytes) :
    String.utf8EncodeChar c ++ rest < String.utf8EncodeChar d ++ rest' := by
  have values : c.val.toNat < d.val.toNat := less
  have bound : d.val.toNat < 0x110000 := by
    have valid := d.valid
    change d.val.toNat < 0xD800 ∨ 0xDFFF < d.val.toNat ∧ d.val.toNat < 0x110000 at valid
    omega
  rw [String.utf8EncodeChar, String.utf8EncodeChar]
  generalize c.val.toNat = v at values
  generalize d.val.toNat = w at values bound
  -- A longer form begins with a greater byte; within a form the digits are compared in turn.
  have first {m n : Nat} (hm : m < 256) (hn : n < 256) (less : m < n) (r r' : Bytes) :
      UInt8.ofNat m :: r < UInt8.ofNat n :: r' :=
    (byte_cons_lt_iff hm hn r r').mpr (.inl less)
  split
  · split
    · exact first (by omega) (by omega) (by omega) _ _
    split
    · exact first (by omega) (by omega) (by omega) _ _
    split
    · exact first (by omega) (by omega) (by omega) _ _
    · exact first (by omega) (by omega) (by omega) _ _
  split
  · split
    · omega
    split
    · simp only [List.cons_append, List.nil_append]
      rw [byte_cons_lt_iff (by omega) (by omega), byte_cons_lt_iff (by omega) (by omega)]
      omega
    split
    · exact first (by omega) (by omega) (by omega) _ _
    · exact first (by omega) (by omega) (by omega) _ _
  split
  · split
    · omega
    split
    · omega
    split
    · simp only [List.cons_append, List.nil_append]
      rw [byte_cons_lt_iff (by omega) (by omega), byte_cons_lt_iff (by omega) (by omega),
        byte_cons_lt_iff (by omega) (by omega)]
      omega
    · exact first (by omega) (by omega) (by omega) _ _
  · split
    · omega
    split
    · omega
    split
    · omega
    · have v_second : v / 64 / 64 = v / 4096 := Nat.div_div_eq_div_mul v 64 64
      have w_second : w / 64 / 64 = w / 4096 := Nat.div_div_eq_div_mul w 64 64
      have v_first : v / 4096 / 64 = v / 262144 := Nat.div_div_eq_div_mul v 4096 64
      have w_first : w / 4096 / 64 = w / 262144 := Nat.div_div_eq_div_mul w 4096 64
      have v_lead : v / 262144 % 8 = v / 262144 := Nat.mod_eq_of_lt (by omega)
      have w_lead : w / 262144 % 8 = w / 262144 := Nat.mod_eq_of_lt (by omega)
      simp only [List.cons_append, List.nil_append]
      rw [byte_cons_lt_iff (by omega) (by omega), byte_cons_lt_iff (by omega) (by omega),
        byte_cons_lt_iff (by omega) (by omega), byte_cons_lt_iff (by omega) (by omega)]
      omega

theorem encodeChars_lt {cs ds : List Char} (less : cs < ds) : encodeChars cs < encodeChars ds := by
  induction less with
  | @nil d ds =>
    rw [encodeChars, encodeChars, List.flatMap_nil, List.flatMap_cons]
    cases spelled : String.utf8EncodeChar d with
    | nil => exact absurd spelled (String.utf8EncodeChar_ne_nil)
    | cons b rest => exact List.Lex.nil
  | @rel c cs d ds less =>
    rw [encodeChars, encodeChars, List.flatMap_cons, List.flatMap_cons]
    exact utf8EncodeChar_append_lt less _ _
  | cons _ ih =>
    rw [encodeChars, encodeChars, List.flatMap_cons, List.flatMap_cons]
    exact List.append_left_lt ih

theorem encode_lt_encode_iff (s t : String) : encode s < encode t ↔ s < t := by
  have forward (s t : String) (less : s < t) : encode s < encode t :=
    encodeChars_lt (String.lt_iff_toList_lt.mp less)
  constructor
  · intro less
    rcases lt_trichotomy s t with before | same | behind
    · exact before
    · rw [same] at less
      exact absurd less (List.lt_irrefl _)
    · exact absurd less (List.lt_asymm (forward t s behind))
  · exact forward s t

end RunLedger.Text.Utf8
