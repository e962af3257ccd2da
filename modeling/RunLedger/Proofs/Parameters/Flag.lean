import Mathlib.Data.List.Forall2
import RunLedger.Proofs.Parameters.Flatten
import RunLedger.Proofs.Recorder.Run
import RunLedger.Proofs.Text.Trim

set_option autoImplicit false

namespace RunLedger

open Text

/-- A small letter itself, or its capital, in ASCII. -/
def IsCaseOf (c small : Char) : Prop :=
  c = small ∨ ('A' ≤ c ∧ c ≤ 'Z' ∧ c.toNat + 32 = small.toNat)

instance (c small : Char) : Decidable (IsCaseOf c small) :=
  inferInstanceAs (Decidable (_ ∨ _))

/-- A text is a word in any case, with white space before and behind it or none. -/
def Spells (text word : String) : Prop :=
  ∃ left middle right, text.toList = left ++ middle ++ right ∧ IsWhite left ∧ IsWhite right ∧
    List.Forall₂ IsCaseOf middle word.toList

/-- Small letters of ASCII alone. -/
def IsWord (word : String) : Prop :=
  ∀ c ∈ word.toList, 'a' ≤ c ∧ c ≤ 'z'

/-- The word of a flag. -/
def flagWord (b : Bool) : String :=
  if b then "true" else "false"

theorem isWord_flagWord (b : Bool) : IsWord (flagWord b) := by
  have letters (b : Bool) :
      ((flagWord b).toList.all fun c => decide ('a' ≤ c ∧ c ≤ 'z')) = true := by
    cases b <;> decide
  intro c among
  exact of_decide_eq_true (List.all_eq_true.mp (letters b) c among)

/-- A character that is neither white space nor a letter of a flag's word. -/
def Foreign (c : Char) : Prop :=
  isWhite c = false ∧ c.toLower ∉ (flagWord true ++ flagWord false).toList

instance : DecidablePred Foreign := fun _ => inferInstanceAs (Decidable (_ ∧ _))

theorem mem_flagWords {b : Bool} {small : Char} (letter : small ∈ (flagWord b).toList) :
    small ∈ (flagWord true ++ flagWord false).toList := by
  rw [String.toList_append, List.mem_append]
  cases b with
  | true => exact .inl letter
  | false => exact .inr letter

theorem toNat_toLower (c : Char) :
    c.toLower.toNat = if 65 ≤ c.toNat ∧ c.toNat ≤ 90 then c.toNat + 32 else c.toNat := by
  have bounds : c.val ≥ 'A'.val ∧ c.val ≤ 'Z'.val ↔ 65 ≤ c.toNat ∧ c.toNat ≤ 90 := by
    simp [UInt32.le_iff_toNat_le]
  delta Char.toLower
  split
  next capital =>
    have high : c.val.toNat ≤ 90 := (bounds.mp capital).2
    rw [if_pos (bounds.mp capital)]
    show (c.val + 32).toNat = c.val.toNat + 32
    rw [UInt32.toNat_add, show (32 : UInt32).toNat = 32 from rfl, Nat.mod_eq_of_lt (by omega)]
  next other =>
    rw [if_neg (fun capital => other (bounds.mpr capital))]

/-- The characters that a small letter is the lower case of. -/
theorem toLower_eq_iff {small : Char} (letter : 'a' ≤ small ∧ small ≤ 'z') (c : Char) :
    c.toLower = small ↔ IsCaseOf c small := by
  have low : 97 ≤ small.toNat := letter.1
  have capital : 'A' ≤ c ∧ c ≤ 'Z' ∧ c.toNat + 32 = small.toNat ↔
      65 ≤ c.toNat ∧ c.toNat ≤ 90 ∧ c.toNat + 32 = small.toNat := Iff.rfl
  rw [IsCaseOf, capital, ← Char.toNat_inj, ← Char.toNat_inj, toNat_toLower]
  split
  · omega
  · omega

theorem IsCaseOf.solid {c small : Char} (same : IsCaseOf c small)
    (letter : 'a' ≤ small ∧ small ≤ 'z') : isWhite c = false := by
  have low : 97 ≤ small.toNat := letter.1
  have high : small.toNat ≤ 122 := letter.2
  have bounds : 65 ≤ c.toNat ∧ c.toNat ≤ 122 := by
    rcases same with rfl | ⟨-, -, same⟩
    · omega
    · omega
  simp only [isWhite, Bool.or_eq_false_iff, Bool.and_eq_false_iff, decide_eq_false_iff_not,
    beq_eq_false_iff_ne]
  omega

theorem exists_letter_of_forall₂ {cs word : List Char} (spelled : List.Forall₂ IsCaseOf cs word)
    {c : Char} (among : c ∈ cs) : ∃ small ∈ word, IsCaseOf c small := by
  induction spelled with
  | nil => cases among
  | cons same _ ih =>
    rcases List.mem_cons.mp among with rfl | later
    · exact ⟨_, List.mem_cons_self, same⟩
    · obtain ⟨small, there, same⟩ := ih later
      exact ⟨small, List.mem_cons_of_mem _ there, same⟩

theorem map_toLower_eq_iff {word : List Char} (letters : ∀ c ∈ word, 'a' ≤ c ∧ c ≤ 'z')
    (cs : List Char) : cs.map Char.toLower = word ↔ List.Forall₂ IsCaseOf cs word := by
  induction word generalizing cs with
  | nil => rw [List.map_eq_nil_iff, List.forall₂_nil_right_iff]
  | cons small word ih =>
    obtain ⟨first, others⟩ := List.forall_mem_cons.mp letters
    cases cs with
    | nil => simp
    | cons c cs =>
      rw [List.map_cons, List.cons.injEq, List.forall₂_cons, toLower_eq_iff first, ih others]

/-- What is left of a text is a word in lower case exactly if the text spells the word. -/
theorem trimmed_eq_iff {word : String} (letters : IsWord word) (text : String) :
    (trimChars text.toList).map Char.toLower = word.toList ↔ Spells text word := by
  constructor
  · intro same
    obtain ⟨left, right, before, behind, parts⟩ := exists_white_around text.toList
    exact ⟨left, _, right, parts, before, behind, (map_toLower_eq_iff letters _).mp same⟩
  · rintro ⟨left, middle, right, parts, before, behind, spelled⟩
    have solid : ∀ c ∈ middle, isWhite c = false := by
      intro c among
      obtain ⟨small, there, same⟩ := exists_letter_of_forall₂ spelled among
      exact same.solid (letters small there)
    rw [parts, trimChars_around before behind, trimChars_of_solid solid]
    exact (map_toLower_eq_iff letters _).mpr spelled

/-- A text is a flag exactly if it spells the flag's word. -/
theorem readFlag?_eq_some (text : String) (b : Bool) :
    Parameters.readFlag? text = some b ↔ Spells text (flagWord b) := by
  have differ : ['t', 'r', 'u', 'e'] ≠ ['f', 'a', 'l', 's', 'e'] := by decide
  rw [← trimmed_eq_iff (isWord_flagWord b), Parameters.readFlag?]
  generalize (trimChars text.toList).map Char.toLower = word
  cases b with
  | true =>
    change _ ↔ word = ['t', 'r', 'u', 'e']
    split <;> simp_all
  | false =>
    change _ ↔ word = ['f', 'a', 'l', 's', 'e']
    split
    · rename_i same
      simp [same]
    · split <;> simp_all

/-- A text with a foreign character in it is no flag. -/
theorem readFlag?_eq_none_of_mem {text : String} {c : Char} (among : c ∈ text.toList)
    (foreign : Foreign c) : Parameters.readFlag? text = none := by
  obtain ⟨solid, other⟩ := foreign
  cases read : Parameters.readFlag? text with
  | none => rfl
  | some b =>
    obtain ⟨left, middle, right, parts, before, behind, spelled⟩ :=
      (readFlag?_eq_some text b).mp read
    rw [parts, List.mem_append, List.mem_append] at among
    rcases among with (there | there) | there
    · rw [before c there] at solid
      cases solid
    · obtain ⟨small, letter, same⟩ := exists_letter_of_forall₂ spelled there
      rw [(toLower_eq_iff (isWord_flagWord b small letter) c).mpr same] at other
      exact absurd (mem_flagWords letter) other
    · rw [behind c there] at solid
      cases solid

theorem foreign_of_isDigit {c : Char} (digit : c.isDigit = true) : Foreign c := by
  have bounds : 48 ≤ c.toNat ∧ c.toNat ≤ 57 := by
    simpa [Char.isDigit, UInt32.le_iff_toNat_le] using digit
  constructor
  · simp only [isWhite, Bool.or_eq_false_iff, Bool.and_eq_false_iff, decide_eq_false_iff_not,
      beq_eq_false_iff_ne]
    omega
  · have words : IsWord (flagWord true ++ flagWord false) := by
      intro small letter
      rw [String.toList_append, List.mem_append] at letter
      rcases letter with letter | letter
      · exact isWord_flagWord true small letter
      · exact isWord_flagWord false small letter
    intro letter
    have low : 97 ≤ c.toLower.toNat := (words _ letter).1
    rcases (toLower_eq_iff (words _ letter) c).mp rfl with same | ⟨first, -, -⟩
    · rw [← same] at low
      omega
    · have least : 65 ≤ c.toNat := first
      omega

theorem exists_digit (n : Nat) : ∃ c ∈ Nat.toDigits 10 n, Foreign c := by
  obtain ⟨c, among⟩ := List.exists_mem_of_ne_nil _ (Nat.toDigits_ne_nil (n := n) (b := 10))
  exact ⟨c, among, foreign_of_isDigit (Nat.isDigit_of_mem_toDigits (by decide) (by decide) among)⟩

namespace Toml

theorem exists_foreign_integer (i : Int) : ∃ c ∈ (toString i).toList, Foreign c := by
  cases i with
  | ofNat n =>
    change ∃ c ∈ n.repr.toList, Foreign c
    rw [Nat.toList_repr]
    exact exists_digit n
  | negSucc n =>
    change ∃ c ∈ ("-" ++ (n + 1).repr).toList, Foreign c
    exact ⟨'-', by simp, by decide⟩

theorem exists_foreign_float (x : Binary64) : ∃ c ∈ x.render.toList, Foreign c := by
  cases x with
  | nan => exact ⟨'n', by decide, by decide⟩
  | infinite negative => exact ⟨'i', by simp [Binary64.render], by decide⟩
  | finite negative m e =>
    refine ⟨'.', ?_, by decide⟩
    have point (digits : Nat) (place : Int) : '.' ∈ Binary64.positional digits place := by
      unfold Binary64.positional
      dsimp only
      split <;> simp
    simp [Binary64.render, point]

theorem exists_foreign_moment (m : Moment) : ∃ c ∈ m.chars, Foreign c := by
  have dash (d : Date) : '-' ∈ d.chars := by simp [Date.chars]
  have colon (t : Time) : ':' ∈ t.chars := by simp [Time.chars]
  cases m with
  | date d => exact ⟨'-', dash d, by decide⟩
  | time t => exact ⟨':', colon t, by decide⟩
  | dateTime d t offset =>
    refine ⟨'-', ?_, by decide⟩
    simp [Moment.chars, dash d]

end Toml

namespace Document

open Toml

/-- Of the values of a document booleans are flags, and strings may be. -/
theorem readFlag?_text (v : Value) :
    Parameters.readFlag? (text v) =
      match v with
      | .boolean b => some b
      | .string s => Parameters.readFlag? s
      | _ => none := by
  have foreign {v : Value} (other : ∃ c ∈ Printer.value v, Foreign c) :
      Parameters.readFlag? v.render = none := by
    obtain ⟨c, among, foreign⟩ := other
    refine readFlag?_eq_none_of_mem ?_ foreign
    rw [Value.render, String.toList_ofList]
    exact among
  cases v with
  | string s => rfl
  | boolean b => cases b <;> rfl
  | integer i => exact foreign (exists_foreign_integer i)
  | float x => exact foreign (exists_foreign_float x)
  | moment m => exact foreign (exists_foreign_moment m)
  | array items =>
    refine foreign ⟨'[', ?_, by decide⟩
    cases items <;> simp [Printer.value]
  | table es =>
    refine foreign ⟨'\x7b', ?_, by decide⟩
    rcases es with _ | ⟨⟨k, v⟩, es⟩ <;> simp [Printer.value]

/-- The string or the integer that a value is. -/
def stringOrInteger? : Value → Option (String ⊕ Int)
  | .string s => some (.inl s)
  | .integer i => some (.inr i)
  | _ => none

theorem eq_of_stringOrInteger? {v : Value} {x : String ⊕ Int}
    (told : stringOrInteger? v = some x) : v = x.elim .string .integer := by
  unfold stringOrInteger? at told
  split at told
  · cases told
    rfl
  · cases told
    rfl
  · cases told

theorem isLast_of_sole {s : String} {path : List String} {x : String ⊕ Int}
    (sole : (read? s).map (fun t => (leaves t).map fun l => (l.1, stringOrInteger? l.2)) =
      some [(path, some x)]) :
    ∃ t, read? s = some t ∧ IsLast t (joined path) path (x.elim .string .integer) := by
  obtain ⟨t, reads, told⟩ := Option.map_eq_some_iff.mp sole
  obtain ⟨l, one, same⟩ := List.map_eq_singleton_iff.mp told
  rw [Prod.mk.injEq] at same
  have value : l = (path, x.elim .string .integer) :=
    Prod.ext same.1 (eq_of_stringOrInteger? same.2)
  have reached : ∀ other w, Reaches t other w ↔ (other, w) = (path, x.elim .string .integer) := by
    intro other w
    rw [← mem_leaves_iff, one, List.mem_singleton, value]
  refine ⟨t, reads, (reached path _).mpr rfl, rfl, ?_⟩
  intro other w reaches _
  exact .inl (congrArg Prod.fst ((reached other w).mp reaches))

end Document

theorem getFlag_eq_some (p : Parameters) (key : String) (b : Bool) :
    (p.getFlag key).value = some b ↔
      ∃ text, p.text? key = some text ∧ Spells text (flagWord b) := by
  rw [Parameters.value_getFlag, Option.bind_eq_some_iff]
  simp only [readFlag?_eq_some]

theorem getFlag_eq_none (p : Parameters) (key : String) :
    (p.getFlag key).value = none ↔
      ∀ text, p.text? key = some text → ¬ Spells text "true" ∧ ¬ Spells text "false" := by
  constructor
  · intro noFlag text set
    have other (b : Bool) : ¬ Spells text (flagWord b) := by
      intro spells
      rw [(getFlag_eq_some p key b).mpr ⟨text, set, spells⟩] at noFlag
      cases noFlag
    exact ⟨other true, other false⟩
  · intro neither
    cases flag : (p.getFlag key).value with
    | none => rfl
    | some b =>
      obtain ⟨text, set, spells⟩ := (getFlag_eq_some p key b).mp flag
      obtain ⟨noTrue, noFalse⟩ := neither text set
      cases b with
      | true => exact absurd spells noTrue
      | false => exact absurd spells noFalse

theorem getFlag_dictionary (d : Dictionary) (key : String) :
    (d.parameters.getFlag key).value = (d.get? key).bind Parameters.readFlag? :=
  Parameters.value_getFlag d.parameters key

theorem Recorder.enabled_start_iff (r : Recorder) (p : Parameters) :
    (r.start p).value.enabled = true ↔ (p.getFlag Parameters.enabledKey).value = some true := by
  rw [Recorder.value_start]
  cases (p.getFlag Parameters.enabledKey).value <;> simp

/-- A recorder that starts is on exactly if the text of its key spells `true` in some ASCII case,
with white space around it or none; a flag is off exactly if the text spells `false` so, and every
other text is no flag. With the parameters of a document, it is on exactly if the value that the key
takes is the boolean `true` or a string that spells it. -/
theorem start_enabled_iff :
    (∀ (r : Recorder) (p : Parameters), (r.start p).value.enabled = true ↔
        ∃ text, p.text? Parameters.enabledKey = some text ∧ Spells text "true") ∧
      (∀ (p : Parameters) (key : String),
        ((p.getFlag key).value = some true ↔
            ∃ text, p.text? key = some text ∧ Spells text "true") ∧
          ((p.getFlag key).value = some false ↔
            ∃ text, p.text? key = some text ∧ Spells text "false") ∧
          ((p.getFlag key).value = none ↔
            ∀ text, p.text? key = some text → ¬ Spells text "true" ∧ ¬ Spells text "false")) ∧
      ∀ s t, Toml.read? s = some t → ∃ d, Document.ofText? s = some d ∧ ∀ r : Recorder,
        (∀ path v, Document.IsLast t Parameters.enabledKey path v →
          d.get? Parameters.enabledKey = some (Document.text v) ∧
            ((r.start d.parameters).value.enabled = true ↔
              v = .boolean true ∨ ∃ text, v = .string text ∧ Spells text "true")) ∧
          ((¬ ∃ path v, Document.IsLast t Parameters.enabledKey path v) →
            d.get? Parameters.enabledKey = none ∧
              (r.start d.parameters).value.enabled = false) := by
  refine ⟨?_, ?_, ?_⟩
  · intro r p
    rw [r.enabled_start_iff]
    exact getFlag_eq_some p _ true
  · intro p key
    exact ⟨getFlag_eq_some p key true, getFlag_eq_some p key false, getFlag_eq_none p key⟩
  · intro s t reads
    have sorted := Toml.read?_sorted reads
    refine ⟨Document.flatten t, by rw [Document.ofText?, reads, Option.map_some], fun r => ⟨?_, ?_⟩⟩
    · intro path v last
      have taken : (Document.flatten t).get? Parameters.enabledKey = some (Document.text v) :=
        (Document.get?_flatten_eq_some sorted).mpr ⟨path, v, last, rfl⟩
      refine ⟨taken, ?_⟩
      rw [r.enabled_start_iff, getFlag_dictionary, taken, Option.bind_some, Document.readFlag?_text]
      cases v <;> simp [readFlag?_eq_some, flagWord]
    · intro nowhere
      have absent : (Document.flatten t).get? Parameters.enabledKey = none := by
        rw [Option.eq_none_iff_forall_ne_some]
        intro x taken
        obtain ⟨path, v, last, -⟩ := (Document.get?_flatten_eq_some sorted).mp taken
        exact nowhere ⟨path, v, last⟩
      refine ⟨absent, ?_⟩
      rw [Bool.eq_false_iff, ne_eq, r.enabled_start_iff, getFlag_dictionary, absent]
      intro impossible
      cases impossible

/-- The flag in other letters with white space around it, and a number. -/
def spelledOut : String := "[uid.tracking]\nenabled = \x22 True\\t\x22\n"

def numbered : String := "[uid]\ntracking.enabled = 1\n"

theorem start_of_documents :
    (∃ t d path, Toml.read? spelledOut = some t ∧ Document.ofText? spelledOut = some d ∧
        Document.IsLast t Parameters.enabledKey path (.string " True\t") ∧
        ∀ r : Recorder, (r.start d.parameters).value.enabled = true) ∧
      ∃ t d path, Toml.read? numbered = some t ∧ Document.ofText? numbered = some d ∧
        Document.IsLast t Parameters.enabledKey path (.integer 1) ∧
        ∀ r : Recorder, (r.start d.parameters).value.enabled = false := by
  obtain ⟨-, -, documents⟩ := start_enabled_iff
  let path := ["uid", "tracking", "enabled"]
  refine ⟨?_, ?_⟩
  · have sole : (Toml.read? spelledOut).map (fun t => (Document.leaves t).map fun l =>
        (l.1, Document.stringOrInteger? l.2)) = some [(path, some (.inl " True\t"))] := by
      decide +kernel
    have spells : Spells " True\t" "true" :=
      ⟨[' '], "True".toList, ['\t'], by decide, by decide, by decide, by decide⟩
    obtain ⟨t, reads, last⟩ := Document.isLast_of_sole sole
    obtain ⟨d, flat, starts⟩ := documents _ t reads
    refine ⟨t, d, path, reads, flat, last, fun r => ?_⟩
    apply ((starts r).1 _ _ last).2.mpr
    exact .inr ⟨_, rfl, spells⟩
  · have sole : (Toml.read? numbered).map (fun t => (Document.leaves t).map fun l =>
        (l.1, Document.stringOrInteger? l.2)) = some [(path, some (.inr 1))] := by
      decide +kernel
    obtain ⟨t, reads, last⟩ := Document.isLast_of_sole sole
    obtain ⟨d, flat, starts⟩ := documents _ t reads
    refine ⟨t, d, path, reads, flat, last, fun r => ?_⟩
    rw [Bool.eq_false_iff, ne_eq, ((starts r).1 _ _ last).2]
    simp

end RunLedger
