import RunLedger.Output.Target
import RunLedger.Stream.Line
import RunLedger.Text.Utf8.Lemmas

set_option autoImplicit false

namespace RunLedger.Output

open RunLedger.Stream Text

/-- The lines of a file in which a line feed ends every line, if all of them are text. -/
def readLines? (bs : Bytes) : Option (List String) :=
  match splitLines bs with
  | (ls, []) => ls.mapM Utf8.decode?
  | (_, _ :: _) => none

/-- The lines of a text, the line feeds being between them. -/
def lines (s : String) : List String :=
  (s.toList.splitOn '\n').map String.ofList

theorem splitOn_feed (cs : List Char) : ('\n' :: cs).splitOn '\n' = [] :: cs.splitOn '\n' := by
  rw [List.splitOn_cons_eq_if_modifyHead, if_pos (beq_self_eq_true _)]

theorem splitOn_other {c : Char} (other : c ≠ '\n') (cs : List Char) :
    ∃ piece others, cs.splitOn '\n' = piece :: others ∧
      (c :: cs).splitOn '\n' = (c :: piece) :: others := by
  rw [List.splitOn_cons_eq_if_modifyHead, if_neg (by simpa using other)]
  cases pieces : cs.splitOn '\n' with
  | nil => exact absurd pieces (List.splitOn_ne_nil '\n' cs)
  | cons piece others => exact ⟨piece, others, rfl, rfl⟩

private theorem ofNat_ne_lineFeed {n : Nat} (small : n < 256) (other : n ≠ 10) :
    UInt8.ofNat n ≠ 0x0A := by
  intro same
  have value := congrArg UInt8.toNat same
  rw [UInt8.toNat_ofNat'] at value
  have ten : (0x0A : UInt8).toNat = 10 := rfl
  omega

/-- No byte of another character is that of a line feed. -/
theorem lineFeed_not_mem_utf8EncodeChar {c : Char} (other : c ≠ '\n') :
    0x0A ∉ String.utf8EncodeChar c := by
  have valid : c.val.toNat < 0x110000 := by
    have bounds := c.valid
    change c.val.toNat < 0xD800 ∨ 0xDFFF < c.val.toNat ∧ c.val.toNat < 0x110000 at bounds
    omega
  have value : c.val.toNat ≠ 10 := by
    intro ten
    apply other
    rw [← Char.ofNat_toNat c, show c.toNat = 10 from ten]
  rw [String.utf8EncodeChar]
  generalize c.val.toNat = v at valid value
  intro member
  -- The number of bytes depends on the value; each byte is the line feed's or at least 0x80.
  split at member
  · simp only [List.mem_singleton] at member
    exact ofNat_ne_lineFeed (by omega) value member.symm
  · split at member
    · simp only [List.mem_cons, List.not_mem_nil, or_false] at member
      rcases member with same | same <;>
        exact ofNat_ne_lineFeed (by omega) (by omega) same.symm
    · split at member
      · simp only [List.mem_cons, List.not_mem_nil, or_false] at member
        rcases member with same | same | same <;>
          exact ofNat_ne_lineFeed (by omega) (by omega) same.symm
      · simp only [List.mem_cons, List.not_mem_nil, or_false] at member
        rcases member with same | same | same | same <;>
          exact ofNat_ne_lineFeed (by omega) (by omega) same.symm

/-- Bytes in front of which there is no line feed belong to the first line that follows. -/
theorem splitLines_append {front : Bytes} (clean : 0x0A ∉ front) {back line last : Bytes}
    {others : List Bytes} (split : splitLines back = (line :: others, last)) :
    splitLines (front ++ back) = ((front ++ line) :: others, last) := by
  induction front with
  | nil => exact split
  | cons b front ih =>
    rw [List.mem_cons, not_or] at clean
    rw [List.cons_append, splitLines, ih clean.2]
    simp only [Ne.symm clean.1, ↓reduceIte]
    rfl

/-- The lines of a text that a line feed ends are those of the text, and then others follow. -/
theorem splitLines_encodeChars (cs : List Char) (rest : Bytes) :
    splitLines (Utf8.encodeChars cs ++ 0x0A :: rest) =
      ((cs.splitOn '\n').map Utf8.encodeChars ++ (splitLines rest).1, (splitLines rest).2) := by
  induction cs with
  | nil => rfl
  | cons c cs ih =>
    have spelled : Utf8.encodeChars (c :: cs) ++ 0x0A :: rest =
        String.utf8EncodeChar c ++ (Utf8.encodeChars cs ++ 0x0A :: rest) := by
      simp [Utf8.encodeChars]
    by_cases feed : c = '\n'
    · subst feed
      change splitLines (0x0A :: (Utf8.encodeChars cs ++ 0x0A :: rest)) = _
      rw [splitLines, ih, splitOn_feed]
      rfl
    · obtain ⟨piece, others, pieces, grown⟩ := splitOn_other feed cs
      rw [pieces] at ih
      rw [spelled, grown, splitLines_append (lineFeed_not_mem_utf8EncodeChar feed) ih]
      simp [Utf8.encodeChars]

theorem splitLines_content (ids : List String) :
    splitLines (content ids) =
      (ids.flatMap fun i => (i.toList.splitOn '\n').map Utf8.encodeChars, []) := by
  induction ids with
  | nil => rfl
  | cons i ids ih =>
    have first : content (i :: ids) = Utf8.encodeChars i.toList ++ 0x0A :: content ids := by
      simp [content, Utf8.encode]
    rw [first, splitLines_encodeChars, ih]
    rfl

theorem mapM_decode? (texts : List (List Char)) :
    (texts.map Utf8.encodeChars).mapM Utf8.decode? = some (texts.map String.ofList) := by
  induction texts with
  | nil => rfl
  | cons cs texts ih =>
    have read : Utf8.decode? (Utf8.encodeChars cs) = some (String.ofList cs) := by
      have spelled := Utf8.decode?_encode (String.ofList cs)
      rwa [Utf8.encode, String.toList_ofList] at spelled
    simp [read, ih]

/-- The content that is read back gives the lines of the ids. -/
theorem readLines?_content (ids : List String) :
    readLines? (content ids) = some (ids.flatMap lines) := by
  unfold readLines?
  rw [splitLines_content]
  change (ids.flatMap fun i => (i.toList.splitOn '\n').map Utf8.encodeChars).mapM _ = _
  rw [← List.map_flatMap, mapM_decode?, List.map_flatMap]
  rfl

theorem not_mem_of_mem_splitOn {cs piece : List Char} (among : piece ∈ cs.splitOn '\n') :
    '\n' ∉ piece := by
  induction cs generalizing piece with
  | nil => simp_all
  | cons c cs ih =>
    by_cases feed : c = '\n'
    · rw [feed, splitOn_feed, List.mem_cons] at among
      rcases among with empty | among
      · simp [empty]
      · exact ih among
    · obtain ⟨first, others, pieces, grown⟩ := splitOn_other feed cs
      rw [grown, List.mem_cons] at among
      rw [pieces] at ih
      rcases among with same | among
      · have clean : '\n' ∉ first := ih List.mem_cons_self
        simp [same, clean, Ne.symm feed]
      · exact ih (List.mem_cons_of_mem first among)

theorem lines_feed (s t : String) : lines (s ++ "\n" ++ t) = lines s ++ lines t := by
  have spelled : (s ++ "\n" ++ t).toList = s.toList ++ '\n' :: t.toList := by simp
  rw [lines, spelled, List.splitOn_append_cons_self, List.map_append]
  rfl

theorem lines_of_not_mem {s : String} (clean : '\n' ∉ s.toList) : lines s = [s] := by
  rw [lines, List.splitOn_eq_singleton clean]
  simp

theorem flatMap_lines_eq_self_iff (ids : List String) :
    ids.flatMap lines = ids ↔ ∀ i ∈ ids, '\n' ∉ i.toList := by
  constructor
  · intro same i member
    rw [← same, List.mem_flatMap] at member
    obtain ⟨_, _, piece⟩ := member
    rw [lines, List.mem_map] at piece
    obtain ⟨cs, among, rfl⟩ := piece
    rw [String.toList_ofList]
    exact not_mem_of_mem_splitOn among
  · intro clean
    induction ids with
    | nil => rfl
    | cons i ids ih =>
      rw [List.flatMap_cons, lines_of_not_mem (clean i List.mem_cons_self),
        ih fun j among => clean j (List.mem_cons_of_mem i among)]
      rfl

/-- Cutting a text at its line feeds does not change what is written of it. -/
theorem content_lines (s : String) : content (lines s) = Utf8.encode s ++ [0x0A] := by
  have whole (cs : List Char) :
      (cs.splitOn '\n').flatMap (fun piece => Utf8.encodeChars piece ++ [0x0A]) =
        Utf8.encodeChars cs ++ [0x0A] := by
    induction cs with
    | nil => rfl
    | cons c cs ih =>
      by_cases feed : c = '\n'
      · rw [feed, splitOn_feed, List.flatMap_cons, ih]
        rfl
      · obtain ⟨first, others, pieces, grown⟩ := splitOn_other feed cs
        rw [pieces, List.flatMap_cons] at ih
        rw [grown, List.flatMap_cons]
        simp only [Utf8.encodeChars, List.flatMap_cons, List.append_assoc] at ih ⊢
        rw [ih]
  have each := whole s.toList
  simpa [content, lines, List.flatMap_map, Utf8.encode] using each

theorem content_flatMap_lines (ids : List String) : content (ids.flatMap lines) = content ids := by
  have each (i : String) :
      (lines i).flatMap (fun line => Utf8.encode line ++ [0x0A]) = Utf8.encode i ++ [0x0A] :=
    content_lines i
  rw [content, List.flatMap_assoc]
  simp only [each]
  rfl

theorem content_eq_iff (first second : List String) :
    content first = content second ↔ first.flatMap lines = second.flatMap lines := by
  constructor
  · intro same
    apply Option.some.inj
    rw [← readLines?_content, ← readLines?_content, same]
  · intro same
    rw [← content_flatMap_lines first, same, content_flatMap_lines]

end RunLedger.Output
