import RunLedger.Proofs.Stream.Continuation
import RunLedger.Proofs.Text.Bytes
import RunLedger.Proofs.Text.Trim

set_option autoImplicit false

namespace RunLedger.Text

theorem trim_append_white (s : String) {c : Char} (white : isWhite c = true) :
    trim (s ++ String.singleton c) = trim s := by
  have behind : IsWhite [c] := List.forall_mem_singleton.mpr white
  rw [trim, trim, String.toList_append, String.toList_singleton, trimChars_append_white _ behind]

end RunLedger.Text

namespace RunLedger.Stream

open Text

/-- The bytes of a line are text. -/
def IsText (line : Bytes) : Prop :=
  (Utf8.decode? line).isSome = true

instance : DecidablePred IsText := fun _ => inferInstanceAs (Decidable (_ = true))

/-- The lines that are delivered, as they stand in the bytes: without their line feeds, but with the
carriage returns in front of these. What is behind the last line feed is lost if the source fails,
and it is no line if nothing is there. -/
def Source.delivered (s : Source) : List Bytes :=
  let between := s.bytes.splitOn 0x0A
  if s.failure.isNone ∧ between.getLast? ≠ some [] then between else between.dropLast

/-- The record of a skipped line. It tells a line that is no object, with the line, from an object
that is no event. -/
def skipRecord (n : Nat) (line : String) : Record :=
  if (trim line).toList.head? = some '\x7b' then
    ⟨.debug, "skipping line " ++ toString n ++ ", not a libtest event"⟩
  else ⟨.trace, "skipping non-JSON line " ++ toString n ++ ": " ++ trim line⟩

/-- The record of a line with its number, if the line is text and is skipped. -/
def skipRecord? (numbered : Bytes × Nat) : Option Record :=
  (Utf8.decode? numbered.1).bind fun line =>
    if IsSkipped line then some (skipRecord numbered.2 line) else none

/-- The record that an action logs. -/
def Action.record? : Action → Option Record
  | .log r => some r
  | .hook _ => none

def recordsOf (actions : List Action) : List Record :=
  actions.filterMap Action.record?

@[simp] theorem recordsOf_append (first second : List Action) :
    recordsOf (first ++ second) = recordsOf first ++ recordsOf second :=
  List.filterMap_append

/-- Between the line feeds are the lines that they end and what is behind the last one. -/
theorem splitOn_eq_splitLines (bs : Bytes) :
    bs.splitOn 0x0A = (splitLines bs).1 ++ [(splitLines bs).2] := by
  induction bs with
  | nil => rfl
  | cons b bs ih =>
    rcases split : splitLines bs with ⟨ls, last⟩
    rw [split] at ih
    rw [List.splitOn] at ih ⊢
    rw [List.splitOnP_cons_eq_if_modifyHead, ih, splitLines, split]
    by_cases feed : b = 0x0A
    · simp [feed]
    · cases ls <;> simp [feed]

theorem delivered_eq (s : Source) :
    s.delivered = (splitLines s.bytes).1 ++
      if s.failure.isNone ∧ (splitLines s.bytes).2 ≠ [] then [(splitLines s.bytes).2] else [] := by
  rw [Source.delivered, splitOn_eq_splitLines]
  simp only [List.getLast?_concat, List.dropLast_concat, ne_eq, Option.some.injEq]
  split
  · rfl
  · rw [List.append_nil]

theorem length_delivered (s : Source) : s.delivered.length = s.lines.length := by
  rw [delivered_eq]
  simp [Source.lines]

theorem trim_decode?_dropReturn (line : Bytes) :
    (Utf8.decode? (dropReturn line)).map trim = (Utf8.decode? line).map trim := by
  unfold dropReturn
  split
  · rename_i ends
    obtain ⟨front, rfl⟩ := List.getLast?_eq_some_iff.mp ends
    have ascii : (0x0D : UInt8) < 0x80 := by decide
    have nothing : Utf8.decode? [] = some "" := rfl
    rw [List.dropLast_concat, Utf8.decode?_ascii ascii, nothing]
    cases Utf8.decode? front with
    | none => rfl
    | some said =>
      have white : isWhite (Char.ofNat (0x0D : UInt8).toNat) = true := by decide
      simp only [Option.map_some, Option.bind_some, String.append_empty,
        trim_append_white said white]
  · rfl

theorem forall₂_lines (s : Source) :
    List.Forall₂ (fun raw line => (Utf8.decode? line).map trim = (Utf8.decode? raw).map trim)
      s.delivered s.lines := by
  rw [delivered_eq, Source.lines]
  refine List.rel_append ?_ ?_
  · rw [List.forall₂_map_right_iff, List.forall₂_same]
    intro raw _
    exact trim_decode?_dropReturn raw
  · rw [List.forall₂_same]
    intro _ _
    rfl

/-- The texts of a stream are those of its lines up to the first one that is no text. The induction
is on both lists of lines. -/
theorem forall₂_texts {raws lines : List Bytes} (same : List.Forall₂
      (fun raw line => (Utf8.decode? line).map trim = (Utf8.decode? raw).map trim) raws lines) :
    List.Forall₂ (fun raw text => (Utf8.decode? raw).map trim = some (trim text))
      (raws.takeWhile fun raw => IsText raw) (texts lines) := by
  induction same with
  | nil => exact .nil
  | @cons raw line raws lines agree _ ih =>
    rw [texts]
    cases said : Utf8.decode? line with
    | some text =>
      rw [said, Option.map_some] at agree
      have text_there : IsText raw := by
        rw [IsText, ← Option.isSome_map (f := trim), ← agree, Option.isSome_some]
      rw [List.takeWhile_cons_of_pos (by simpa using text_there)]
      exact .cons agree.symm ih
    | none =>
      rw [said, Option.map_none] at agree
      have no_text : ¬ IsText raw := by
        rw [IsText, ← Option.isSome_map (f := trim), ← agree, Option.isSome_none]
        exact Bool.false_ne_true
      rw [List.takeWhile_cons_of_neg (by simpa using no_text)]
      exact .nil

theorem length_texts (s : Source) :
    (texts s.lines).length = (s.delivered.takeWhile fun line => IsText line).length :=
  (forall₂_texts (forall₂_lines s)).length_eq.symm

theorem isSkipped_congr {one other : String} (same : trim one = trim other) :
    IsSkipped one ↔ IsSkipped other := by
  rw [IsSkipped, IsSkipped, same]

theorem skipRecord?_eq {raw : Bytes} {text : String} (n : Nat)
    (said : (Utf8.decode? raw).map trim = some (trim text)) :
    skipRecord? (raw, n) = if IsSkipped text then some (skipRecord n text) else none := by
  obtain ⟨other, reads, same⟩ := Option.map_eq_some_iff.mp said
  have record : skipRecord n other = skipRecord n text := by
    rw [skipRecord, skipRecord, same]
  simp only [skipRecord?, reads, Option.bind_some, isSkipped_congr same, record]

theorem recordsOf_lineActions (r : Reader) (n : Nat) (text : String) :
    recordsOf (r.lineActions n (Line.ofText text)) =
      if IsSkipped text then [skipRecord n text] else [] := by
  simp only [← isSkipped_ofText]
  cases begins : (trim text).toList.head? with
  | none =>
    rw [ofText_blank begins]
    rfl
  | some c =>
    by_cases brace : c = '\x7b'
    · subst brace
      rw [ofText_object begins]
      cases (Json.Value.read? (trim text)).bind Event.ofValue? with
      | none =>
        simp [Line.isSkipped, Reader.lineActions, skipRecord, begins, recordsOf, Action.record?]
      | some e => cases e <;> rfl
    · rw [ofText_chatter begins brace]
      simp [Line.isSkipped, Reader.lineActions, skipRecord, begins, brace, recordsOf,
        Action.record?]

/-- The records of the lines from number `n` on. A hook that starts the run logs nothing itself. -/
theorem recordsOf_actions (r : Reader) (started : Bool) (n : Nat) {raws : List Bytes}
    {lines : List String} (said : List.Forall₂
      (fun raw text => (Utf8.decode? raw).map trim = some (trim text)) raws lines) :
    recordsOf (r.actions started n (lines.map Line.ofText)) =
      (raws.zipIdx n).filterMap skipRecord? := by
  induction said generalizing started n with
  | nil => rfl
  | @cons raw text raws lines first _ ih =>
    have starting : recordsOf (if (Line.ofText text).startsRun ∧ ¬ started then
        [.hook (.runStarted r.parameters)] else []) = [] := by
      split <;> rfl
    rw [List.map_cons, Reader.actions, recordsOf_append, recordsOf_append, starting,
      recordsOf_lineActions, ih, List.zipIdx_cons, List.filterMap_cons, skipRecord?_eq n first]
    split <;> rfl

theorem recordsOf_read (r : Reader) (s : Source) :
    recordsOf (r.read s).actions =
      ((s.delivered.takeWhile fun line => IsText line).zipIdx 1).filterMap skipRecord? ++
        [(r.read s).tally.record] := by
  have ending (ls : List Line) : recordsOf (if ls.any (·.startsRun) then
      [.hook (.runFinished r.parameters)] else []) = [] := by
    split <;> rfl
  rw [← recordsOf_actions r false 1 (forall₂_texts (forall₂_lines s))]
  simp only [Reader.read, recordsOf_append, ending, List.append_nil]
  rfl

/-- The first lines of some bytes, up to any number of them. The induction is on the bytes. -/
theorem exists_whole_front {bs : Bytes} {k : Nat} (within : k ≤ bs.count 0x0A) :
    ∃ front rest, bs = front ++ rest ∧ Whole front ∧ front.count 0x0A = k := by
  induction bs generalizing k with
  | nil => exact ⟨[], [], rfl, .inl rfl, (Nat.le_zero.mp within).symm⟩
  | cons b bs ih =>
    cases k with
    | zero => exact ⟨[], b :: bs, rfl, .inl rfl, rfl⟩
    | succ k =>
      by_cases feed : b = 0x0A
      · subst feed
        rw [List.count_cons_self] at within
        obtain ⟨front, rest, rfl, whole, counted⟩ := ih (Nat.le_of_succ_le_succ within)
        refine ⟨0x0A :: front, rest, rfl, .inr ?_, by rw [List.count_cons_self, counted]⟩
        rcases whole with rfl | ends
        · rfl
        · rw [List.getLast?_cons, ends]
          rfl
      · rw [List.count_cons_of_ne feed] at within
        obtain ⟨front, rest, rfl, whole, counted⟩ := ih within
        refine ⟨b :: front, rest, rfl, .inr ?_, by rw [List.count_cons_of_ne feed, counted]⟩
        rcases whole with rfl | ends
        · cases counted
        · rw [List.getLast?_cons, ends]
          rfl

theorem texts_take (ls : List Bytes) : texts (ls.take (texts ls).length) = texts ls := by
  induction ls with
  | nil => rfl
  | cons l ls ih =>
    cases said : Utf8.decode? l with
    | some text => simp only [texts, said, List.length_cons, List.take_succ_cons, ih]
    | none => simp only [texts, said, List.length_nil, List.take_zero]

/-- If the lines in front of the end of reading are whole lines, they alone are announced. -/
theorem hooksOf_front (r : Reader) {s : Source} {front rest : Bytes}
    (parts : s.bytes = front ++ rest) (whole : Whole front)
    (counted : front.count 0x0A = (texts s.lines).length) :
    hooksOf (r.read ⟨front, none⟩).actions = hooksOf (r.read s).actions := by
  have joined : s.lines = Source.lines ⟨front, none⟩ ++ Source.lines ⟨rest, s.failure⟩ := by
    rw [← lines_append whole ⟨rest, s.failure⟩, ← parts]
  have number : (Source.lines ⟨front, none⟩).length = (texts s.lines).length := by
    rw [lines_whole whole, List.length_map, length_splitLines, counted]
  have first : s.lines.take (texts s.lines).length = Source.lines ⟨front, none⟩ := by
    rw [← number, joined, List.take_left]
  have same : texts (Source.lines ⟨front, none⟩) = texts s.lines := by
    rw [← first, texts_take]
  rw [hooksOf_read, hooksOf_read, same]

theorem length_lines_of_fails {s : Source} {f : Fault} (fails : s.failure = some f) :
    s.lines.length = s.bytes.count 0x0A := by
  rw [← length_splitLines]
  simp [Source.lines, fails]

theorem length_lines_le (s : Source) : s.lines.length ≤ s.bytes.count 0x0A + 1 := by
  rw [← length_splitLines]
  simp only [Source.lines, List.length_append, List.length_map]
  split
  · exact Nat.le_refl _
  · exact Nat.le_succ _

/-- Of the lines that are delivered one may be no text. Then reading fails with the number of the
first such line, and what is announced is announced of the lines in front of it alone, which are
whole lines. If all are text and the source fails, reading fails with its fault and with the number
of the line behind the last line feed, and what is announced is announced of what stands up to there
alone. Otherwise reading succeeds. In any case there is one record for each line that is skipped, in
the order of the lines and with its number among all of them, and the counts are logged last. -/
theorem read_truncates (r : Reader) (s : Source) :
    (∀ good bad later, s.delivered = good ++ bad :: later → (∀ line ∈ good, IsText line) →
      ¬ IsText bad →
        (r.read s).result = .error ⟨good.length + 1, .notText⟩ ∧
          ∃ front rest, s.bytes = front ++ rest ∧ Whole front ∧
            front.count 0x0A = good.length ∧
            hooksOf (r.read s).actions = hooksOf (r.read ⟨front, none⟩).actions) ∧
      ((∀ line ∈ s.delivered, IsText line) → ∀ f, s.failure = some f →
        (r.read s).result = .error ⟨s.bytes.count 0x0A + 1, f⟩ ∧
          ∃ front rest, s.bytes = front ++ rest ∧ Whole front ∧ 0x0A ∉ rest ∧
            hooksOf (r.read s).actions = hooksOf (r.read ⟨front, none⟩).actions) ∧
      ((∀ line ∈ s.delivered, IsText line) → s.failure = none →
        (r.read s).result = .ok (r.read s).tally) ∧
      recordsOf (r.read s).actions =
        ((s.delivered.takeWhile fun line => IsText line).zipIdx 1).filterMap skipRecord? ++
          [(r.read s).tally.record] := by
  have failure : (r.read s).failure = Reader.failure? s := rfl
  have all (clean : ∀ line ∈ s.delivered, IsText line) :
      (texts s.lines).length = s.lines.length := by
    rw [length_texts, ← length_delivered, List.takeWhile_eq_self_iff.mpr (by simpa using clean)]
  have none_left (clean : ∀ line ∈ s.delivered, IsText line) :
      ¬ (texts s.lines).length < s.lines.length := by
    rw [all clean]
    exact Nat.lt_irrefl _
  refine ⟨?_, ?_, ?_, recordsOf_read r s⟩
  · intro good bad later delivered clean spoiled
    have number : (texts s.lines).length = good.length := by
      rw [length_texts, delivered, List.takeWhile_append_of_pos (by simpa using clean),
        List.takeWhile_cons_of_neg (by simpa using spoiled), List.append_nil]
    have fewer : (texts s.lines).length < s.lines.length := by
      rw [number, ← length_delivered, delivered, List.length_append, List.length_cons]
      omega
    have within : (texts s.lines).length ≤ s.bytes.count 0x0A := by
      have most := length_lines_le s
      omega
    obtain ⟨front, rest, parts, whole, counted⟩ := exists_whole_front within
    refine ⟨?_, front, rest, parts, whole, counted.trans number, ?_⟩
    · rw [Reading.result_eq_error, failure, Reader.failure?, if_pos fewer, number]
    · exact (hooksOf_front r parts whole counted).symm
  · intro clean f fails
    have number : (texts s.lines).length = s.bytes.count 0x0A := by
      rw [all clean, length_lines_of_fails fails]
    obtain ⟨front, rest, parts, whole, counted⟩ := exists_whole_front (Nat.le_of_eq number)
    refine ⟨?_, front, rest, parts, whole, ?_, ?_⟩
    · rw [Reading.result_eq_error, failure, Reader.failure?, if_neg (none_left clean), fails,
        number]
      rfl
    · have total : s.bytes.count 0x0A = front.count 0x0A + rest.count 0x0A := by
        rw [parts, List.count_append]
      apply List.count_eq_zero.mp
      omega
    · exact (hooksOf_front r parts whole counted).symm
  · intro clean unfailing
    rw [Reading.result_eq_ok, failure, Reader.failure?, if_neg (none_left clean), unfailing]
    exact ⟨rfl, rfl⟩

end RunLedger.Stream
