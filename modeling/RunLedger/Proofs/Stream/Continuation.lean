import RunLedger.Proofs.Recorder.History
import RunLedger.Proofs.Stream.Grammar
import RunLedger.Proofs.Stream.Protocol

set_option autoImplicit false

namespace RunLedger.Stream

open Text

/-- Bytes that end with a line, if there are any. -/
def Whole (bs : Bytes) : Prop :=
  bs = [] ∨ bs.getLast? = some 0x0A

instance (bs : Bytes) : Decidable (Whole bs) :=
  inferInstanceAs (Decidable (_ ∨ _))

theorem Whole.tail {b : UInt8} {bs : Bytes} (whole : Whole (b :: bs)) : Whole bs := by
  cases bs with
  | nil => exact .inl rfl
  | cons c bs =>
    rcases whole with empty | ends
    · cases empty
    · rw [List.getLast?_cons_cons] at ends
      exact .inr ends

/-- A line feed ends each line but what is behind the last one. -/
theorem length_splitLines (bs : Bytes) : (splitLines bs).1.length = bs.count 0x0A := by
  induction bs with
  | nil => rfl
  | cons b bs ih =>
    rcases split : splitLines bs with ⟨ls, last⟩
    rw [split] at ih
    by_cases feed : b = 0x0A
    · subst feed
      simp [splitLines, split, ← ih]
    · rw [List.count_cons_of_ne feed, ← ih]
      cases ls with
      | nil => simp [splitLines, split, feed]
      | cons l ls => simp [splitLines, split, feed]

/-- Whole lines stay what they are, whatever follows them. -/
theorem splitLines_whole_append {first : Bytes} (whole : Whole first) (second : Bytes) :
    splitLines (first ++ second) =
      ((splitLines first).1 ++ (splitLines second).1, (splitLines second).2) := by
  induction first with
  | nil => rfl
  | cons b rest ih =>
    have later := ih whole.tail
    rcases split : splitLines rest with ⟨ls, last⟩
    rw [split] at later
    rw [List.cons_append, splitLines, splitLines, later, split]
    by_cases feed : b = 0x0A
    · simp only [feed, ↓reduceIte, List.cons_append]
    · cases ls with
      | cons l ls => simp only [feed, ↓reduceIte, List.cons_append]
      | nil =>
        -- Without a line feed there is no line, so these bytes would have to be empty.
        have none_there : rest.count 0x0A = 0 := by
          rw [← length_splitLines, split]
          rfl
        rcases whole with empty | ends
        · cases empty
        · cases rest with
          | nil => exact absurd (Option.some.inj ends) feed
          | cons c rest =>
            rw [List.getLast?_cons_cons] at ends
            exact absurd (List.mem_of_getLast? ends) (List.count_eq_zero.mp none_there)

theorem splitLines_whole {bs : Bytes} (whole : Whole bs) : (splitLines bs).2 = [] := by
  have split := splitLines_whole_append whole []
  rw [List.append_nil] at split
  rw [split]
  rfl

theorem lines_whole {bs : Bytes} (whole : Whole bs) :
    Source.lines ⟨bs, none⟩ = (splitLines bs).1.map dropReturn := by
  simp [Source.lines, splitLines_whole whole]

theorem lines_append {first : Bytes} (whole : Whole first) (second : Source) :
    Source.lines ⟨first ++ second.bytes, second.failure⟩ =
      Source.lines ⟨first, none⟩ ++ second.lines := by
  rw [lines_whole whole]
  simp only [Source.lines, splitLines_whole_append whole, List.map_append, List.append_assoc]

theorem length_texts_le (ls : List Bytes) : (texts ls).length ≤ ls.length := by
  induction ls with
  | nil => exact Nat.le_refl 0
  | cons l ls ih =>
    rw [texts]
    split
    · exact Nat.succ_le_succ ih
    · exact Nat.zero_le _

theorem texts_append {first : List Bytes} (clean : (texts first).length = first.length)
    (second : List Bytes) : texts (first ++ second) = texts first ++ texts second := by
  induction first with
  | nil => rfl
  | cons l rest ih =>
    rw [List.cons_append, texts, texts]
    cases said : Utf8.decode? l with
    | none =>
      rw [texts, said] at clean
      cases clean
    | some s =>
      rw [texts, said] at clean
      exact congrArg (s :: ·) (ih (Nat.succ.inj clean))

theorem Reading.result_eq_ok (x : Reading) (counts : Tally) :
    x.result = .ok counts ↔ x.failure = none ∧ x.tally = counts := by
  rw [Reading.result]
  cases x.failure <;> simp

theorem Reading.result_eq_error (x : Reading) (e : ReadError) :
    x.result = .error e ↔ x.failure = some e := by
  rw [Reading.result]
  cases x.failure <;> simp

/-- A source that is read to its end has delivered text only. -/
theorem length_texts_of_failure? {s : Source} (none_there : Reader.failure? s = none) :
    (texts s.lines).length = s.lines.length := by
  have least := length_texts_le s.lines
  have full : ¬ (texts s.lines).length < s.lines.length := by
    intro fewer
    simp only [Reader.failure?, fewer, ↓reduceIte, reduceCtorEq] at none_there
  omega

/-- The cases that a reader announces. -/
def Reading.cases (x : Reading) : List (Identifier × Outcome) :=
  (hooksOf x.actions).filterMap Hook.case?

/-- A reader announces that a run starts. -/
def Reading.Starts (x : Reading) : Prop :=
  ∃ p, Hook.runStarted p ∈ hooksOf x.actions

theorem cases_read (r : Reader) (s : Source) :
    (r.read s).cases = (((texts s.lines).map Line.ofText).filterMap Line.test?).map fun test =>
      (⟨uniqueId r.binaryId test.1, .test⟩, test.2) := by
  rw [Reading.cases, Reader.read]
  simp only [hooksOf_append, hooksOf_actions]
  generalize (texts s.lines).map Line.ofText = ls
  have before : (if ls.any (·.startsRun) ∧ ¬ false then
      [Hook.runStarted r.parameters] else []).filterMap Hook.case? = [] := by
    split <;> rfl
  have behind : (hooksOf (if ls.any (·.startsRun) then
      [Action.hook (.runFinished r.parameters)] else [])).filterMap Hook.case? = [] := by
    split <;> rfl
  have each : Hook.case? ∘ r.caseOf =
      fun test => some (⟨uniqueId r.binaryId test.1, .test⟩, test.2) := rfl
  rw [List.filterMap_append, List.filterMap_append, List.filterMap_append, before, behind,
    List.filterMap_map, each, List.filterMap_eq_map']
  simp [hooksOf, Action.hook?]

theorem starts_read (r : Reader) (s : Source) :
    (r.read s).Starts ↔ ((texts s.lines).map Line.ofText).any (·.startsRun) = true := by
  rw [Reading.Starts, hooksOf_read]
  constructor
  · rintro ⟨p, among⟩
    by_contra quiet
    rw [if_neg quiet] at among
    cases among
  · intro starts
    rw [if_pos starts]
    exact ⟨r.parameters, List.mem_cons_self⟩

/-- The hooks of a reading are the one run of its cases, if it starts a run. -/
theorem hooksOf_read_cases (r : Reader) (s : Source) :
    ((r.read s).Starts → hooksOf (r.read s).actions =
        .runStarted r.parameters :: announced (r.read s).cases ++ [.runFinished r.parameters]) ∧
      (¬ (r.read s).Starts → hooksOf (r.read s).actions = []) := by
  rw [starts_read, hooksOf_read, cases_read, announced, List.map_map]
  constructor
  · intro starts
    rw [if_pos starts]
    rfl
  · intro quiet
    rw [if_neg quiet]

theorem ofLines_append (first second : List Line) :
    Tally.ofLines (first ++ second) = (Tally.ofLines first).plus (Tally.ofLines second) := by
  simp only [Tally.ofLines, Tally.plus, List.countP_append]

/-- Where reading fails behind whole lines that are text is counted on from these. -/
theorem failure?_append {first : Bytes} (whole : Whole first)
    (clean : (texts (Source.lines ⟨first, none⟩)).length = (Source.lines ⟨first, none⟩).length)
    (second : Source) :
    Reader.failure? ⟨first ++ second.bytes, second.failure⟩ =
      (Reader.failure? second).map fun e => ⟨first.count 0x0A + e.line, e.cause⟩ := by
  have counted : (Source.lines ⟨first, none⟩).length = first.count 0x0A := by
    rw [lines_whole whole, List.length_map, length_splitLines]
  have fewer : (texts (Source.lines ⟨first, none⟩ ++ second.lines)).length <
      (Source.lines ⟨first, none⟩ ++ second.lines).length ↔
        (texts second.lines).length < second.lines.length := by
    rw [texts_append clean, List.length_append, List.length_append]
    omega
  have line : (texts (Source.lines ⟨first, none⟩ ++ second.lines)).length + 1 =
      first.count 0x0A + ((texts second.lines).length + 1) := by
    rw [texts_append clean, List.length_append]
    omega
  unfold Reader.failure?
  rw [lines_append whole]
  simp only [fewer, line]
  split
  · rfl
  · rw [Option.map_map]
    rfl

/-- A stream begins with whole lines and is read without a failure up to there, and then anything
follows. The cases of both parts are announced, in this order. There is one run around them if
either part alone would start one, and otherwise nothing is announced. If what follows is read
without a failure, the whole is, and each count is the sum of the two; if it fails at a line, the
whole fails for the same cause, as many lines further on as the first part has. -/
theorem read_append (r : Reader) {first : Bytes} (second : Source) (whole : Whole first)
    {counts : Tally} (reads : (r.read ⟨first, none⟩).result = .ok counts) :
    let one := r.read ⟨first, none⟩
    let other := r.read second
    let both := r.read ⟨first ++ second.bytes, second.failure⟩
    both.cases = one.cases ++ other.cases ∧
      (one.Starts ∨ other.Starts → hooksOf both.actions =
        [.runStarted r.parameters] ++ announced (one.cases ++ other.cases) ++
          [.runFinished r.parameters]) ∧
      (¬ (one.Starts ∨ other.Starts) → hooksOf both.actions = []) ∧
      (∀ counts', other.result = .ok counts' → both.result = .ok (counts.plus counts')) ∧
      ∀ e, other.result = .error e →
        both.result = .error ⟨first.count 0x0A + e.line, e.cause⟩ := by
  intro one other both
  obtain ⟨unfailing, counted⟩ := (one.result_eq_ok counts).mp reads
  have clean := length_texts_of_failure? unfailing
  have lines : (texts (Source.lines ⟨first ++ second.bytes, second.failure⟩)).map Line.ofText =
      (texts (Source.lines ⟨first, none⟩)).map Line.ofText ++
        (texts second.lines).map Line.ofText := by
    rw [lines_append whole, texts_append clean, List.map_append]
  have cases : both.cases = one.cases ++ other.cases := by
    rw [cases_read, cases_read, cases_read, lines, List.filterMap_append, List.map_append]
  have starts : both.Starts ↔ one.Starts ∨ other.Starts := by
    rw [starts_read, starts_read, starts_read, lines, List.any_append, Bool.or_eq_true]
  have tally : both.tally = one.tally.plus other.tally := by
    change Tally.ofLines _ = (Tally.ofLines _).plus (Tally.ofLines _)
    rw [lines, ofLines_append]
  have failure : both.failure =
      other.failure.map fun e => ⟨first.count 0x0A + e.line, e.cause⟩ :=
    failure?_append whole clean second
  obtain ⟨run, silence⟩ := hooksOf_read_cases r ⟨first ++ second.bytes, second.failure⟩
  refine ⟨cases, ?_, ?_, ?_, ?_⟩
  · intro either
    rw [← cases]
    exact run (starts.mpr either)
  · intro neither
    exact silence (starts.not.mpr neither)
  · intro counts' ends
    obtain ⟨unfailing', counted'⟩ := (other.result_eq_ok counts').mp ends
    rw [both.result_eq_ok, failure, unfailing', tally, counted, counted']
    exact ⟨rfl, rfl⟩
  · intro e fails
    rw [both.result_eq_error, failure, (other.result_eq_error e).mp fails]
    rfl

/-- What a build tool says before the report of its binary, and the beginning of the report. -/
def opening : Bytes :=
  Utf8.encode "Running core\n\x7b\"type\":\"suite\",\"event\":\"started\"\x7d\r\n"

/-- A test that passed, a line that is no text, and a source that fails even behind these. -/
def spoiled : Source where
  bytes := Utf8.encode "\x7b\"type\":\"test\",\"name\":\"a\",\"event\":\"ok\"\x7d\n" ++ [0xFF, 0x0A]
  failure := some (.other "pipe closed" [])

theorem spoiled_behind_opening :
    Whole opening ∧
      (Reader.read ⟨Dictionary.empty.parameters, none⟩ ⟨opening, none⟩).result = .ok ⟨1, 0, 1⟩ ∧
      let r : Reader := ⟨Dictionary.empty.parameters, none⟩
      let both := r.read ⟨opening ++ spoiled.bytes, spoiled.failure⟩
      both.cases = [(⟨"[test:a]", .test⟩, .successful)] ∧
        hooksOf both.actions = [.runStarted r.parameters,
          .caseFinished ⟨"[test:a]", .test⟩ .successful, .runFinished r.parameters] ∧
        both.result = .error ⟨4, .notText⟩ := by
  let r : Reader := ⟨Dictionary.empty.parameters, none⟩
  have whole : Whole opening := by decide +kernel
  have unfailing : (r.read ⟨opening, none⟩).failure = none := by decide +kernel
  have tally : (r.read ⟨opening, none⟩).tally = ⟨1, 0, 1⟩ := by decide +kernel
  have reads : (r.read ⟨opening, none⟩).result = .ok ⟨1, 0, 1⟩ :=
    (Reading.result_eq_ok _ _).mpr ⟨unfailing, tally⟩
  have quiet : (r.read ⟨opening, none⟩).cases = [] := by decide +kernel
  have passed : (r.read spoiled).cases = [(⟨"[test:a]", .test⟩, .successful)] := by decide +kernel
  have fails : (r.read spoiled).result = .error ⟨2, .notText⟩ :=
    (Reading.result_eq_error _ _).mpr (by decide +kernel)
  have starts : (r.read spoiled).Starts := (starts_read r spoiled).mpr (by decide +kernel)
  have lines : opening.count 0x0A = 2 := by decide +kernel
  obtain ⟨cases, run, -, -, failure⟩ := read_append r spoiled whole reads
  rw [quiet, passed] at cases run
  refine ⟨whole, reads, cases, run (.inr starts), ?_⟩
  rw [failure _ fails, lines]
  rfl

end RunLedger.Stream
