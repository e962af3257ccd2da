import RunLedger.Stream.Line

set_option autoImplicit false

namespace RunLedger.Stream

open Text Event

/-- A line is an object with these members, with white space around it or none. -/
def IsObject (line : String) (ms : Members) : Prop :=
  (trim line).toList.head? = some '\x7b' ∧ Json.Value.read? (trim line) = some (.object ms)

/-- A line reports that the tests of a binary start. -/
def StartsSuite (line : String) : Prop :=
  ∃ ms, IsObject line ms ∧ only? ms "type" = some (.string "suite") ∧
    (only? ms "event").bind word? = some "started"

/-- A line reports that a test finished. A failed one has its message, and without one its output;
an ignored one has its message. -/
def FinishesTest (line name : String) (outcome : Outcome) : Prop :=
  ∃ ms word output message, IsObject line ms ∧ only? ms "type" = some (.string "test") ∧
    (only? ms "event").bind word? = some word ∧ only? ms "name" = some (.string name) ∧
    text? ms "stdout" = some output ∧ text? ms "message" = some message ∧
    (word, outcome) ∈ [("ok", .successful), ("failed", .failed (message <|> output)),
      ("ignored", .skipped message)]

/-- A line is left out: something is in it, but no event. -/
def IsSkipped (line : String) : Prop :=
  trim line ≠ "" ∧ ((trim line).toList.head? ≠ some '\x7b' ∨
    ¬ ∃ v e, Json.Value.read? (trim line) = some v ∧ ofValue? v = some e)

/-- What a line that begins as an object is. -/
theorem ofText_object {line : String} (begins : (trim line).toList.head? = some '\x7b') :
    Line.ofText line =
      match (Json.Value.read? (trim line)).bind ofValue? with
      | some e => .event e
      | none => .foreign := by
  obtain ⟨rest, text⟩ := List.head?_eq_some_iff.mp begins
  unfold Line.ofText
  cases read : (Json.Value.read? (trim line)).bind ofValue? <;>
    simp only [text, ne_eq, not_true_eq_false, ↓reduceIte, read]

theorem ofText_chatter {line : String} {c : Char} (begins : (trim line).toList.head? = some c)
    (other : c ≠ '\x7b') : Line.ofText line = .chatter (trim line) := by
  obtain ⟨rest, text⟩ := List.head?_eq_some_iff.mp begins
  unfold Line.ofText
  simp only [text, ne_eq, other, not_false_eq_true, ↓reduceIte]

theorem ofText_blank {line : String} (blank : (trim line).toList.head? = none) :
    Line.ofText line = .blank := by
  unfold Line.ofText
  simp only [List.head?_eq_none_iff.mp blank]

/-- A line is an event exactly if it is an object whose members say so. -/
theorem ofText_eq_event_iff (line : String) (e : Event) :
    Line.ofText line = .event e ↔ ∃ ms, IsObject line ms ∧ ofMembers? ms = some e := by
  unfold IsObject
  cases begins : (trim line).toList.head? with
  | none =>
    rw [ofText_blank begins]
    simp
  | some c =>
    by_cases brace : c = '\x7b'
    · subst brace
      rw [ofText_object begins]
      cases Json.Value.read? (trim line) with
      | none => simp
      | some v =>
        cases v with
        | object ms => cases said : ofMembers? ms <;> simp [ofValue?, said]
        | null | boolean b | number n | string s | array items => simp [ofValue?]
    · rw [ofText_chatter begins brace]
      simp [brace]

theorem string?_eq_some_iff (v : Json.Value) (s : String) :
    string? v = some s ↔ v = .string s := by
  cases v <;> simp [string?]

theorem suite?_eq_some_iff (ms : Members) (e : Event) :
    suite? ms = some e ↔ ∃ word, (only? ms "event").bind word? = some word ∧
      e = if word = "started" then .suiteStarted else .other := by
  unfold suite?
  simp only [Option.bind_eq_bind, Option.pure_def, Option.bind_eq_some_iff, Option.some.injEq]
  constructor
  · rintro ⟨v, single, word, said, rfl⟩
    exact ⟨word, ⟨v, single, said⟩, rfl⟩
  · rintro ⟨word, ⟨v, single, said⟩, rfl⟩
    exact ⟨v, single, word, said, rfl⟩

theorem ofTest_eq_testFinished_iff (word name name' : String) (output message : Option String)
    (outcome : Outcome) :
    ofTest word name output message = .testFinished name' outcome ↔
      name = name' ∧ (word, outcome) ∈ [("ok", .successful),
        ("failed", .failed (message <|> output)), ("ignored", .skipped message)] := by
  unfold ofTest
  simp only [List.mem_cons, Prod.mk.injEq, List.not_mem_nil, or_false]
  by_cases ok : word = "ok"
  · simp [ok, eq_comm]
  · by_cases failed : word = "failed"
    · simp [failed, eq_comm]
    · by_cases ignored : word = "ignored"
      · simp [ignored, eq_comm]
      · simp [ok, failed, ignored]

theorem ofTest_ne_suiteStarted (word name : String) (output message : Option String) :
    ofTest word name output message ≠ .suiteStarted := by
  unfold ofTest
  split
  · simp
  · split
    · simp
    · split <;> simp

theorem test?_eq_some_iff (ms : Members) (e : Event) :
    test? ms = some e ↔ ∃ word name output message, (only? ms "event").bind word? = some word ∧
      only? ms "name" = some (.string name) ∧ text? ms "stdout" = some output ∧
      text? ms "message" = some message ∧ ofTest word name output message = e := by
  unfold test?
  simp only [Option.bind_eq_bind, Option.pure_def, Option.bind_eq_some_iff, Option.some.injEq,
    string?_eq_some_iff]
  constructor
  · rintro ⟨event, single, word, said, v, named, name, rfl, output, printed, message, told, same⟩
    exact ⟨word, name, output, message, ⟨event, single, said⟩, named, printed, told, same⟩
  · rintro ⟨word, name, output, message, ⟨event, single, said⟩, named, printed, told, same⟩
    exact ⟨event, single, word, said, _, named, name, rfl, output, printed, message, told, same⟩

theorem test?_eq_testFinished_iff (ms : Members) (name : String) (outcome : Outcome) :
    test? ms = some (.testFinished name outcome) ↔
      ∃ word output message, (only? ms "event").bind word? = some word ∧
        only? ms "name" = some (.string name) ∧ text? ms "stdout" = some output ∧
        text? ms "message" = some message ∧
        (word, outcome) ∈ [("ok", .successful), ("failed", .failed (message <|> output)),
          ("ignored", .skipped message)] := by
  rw [test?_eq_some_iff]
  simp only [ofTest_eq_testFinished_iff]
  constructor
  · rintro ⟨word, name', output, message, said, named, printed, told, rfl, outcomes⟩
    exact ⟨word, output, message, said, named, printed, told, outcomes⟩
  · rintro ⟨word, output, message, said, named, printed, told, outcomes⟩
    exact ⟨word, name, output, message, said, named, printed, told, rfl, outcomes⟩

/-- The type of an object decides how the rest of it is taken. -/
theorem ofMembers?_eq_some_iff (ms : Members) (e : Event) :
    ofMembers? ms = some e ↔ ∃ type, only? ms "type" = some (.string type) ∧
      (if type = "suite" then suite? ms else if type = "test" then test? ms else some .other) =
        some e := by
  unfold ofMembers?
  simp only [Option.bind_eq_bind, Option.bind_eq_some_iff, string?_eq_some_iff]
  constructor
  · rintro ⟨v, single, type, rfl, taken⟩
    exact ⟨type, single, taken⟩
  · rintro ⟨type, single, taken⟩
    exact ⟨_, single, type, rfl, taken⟩

theorem ofMembers?_eq_suiteStarted_iff (ms : Members) :
    ofMembers? ms = some .suiteStarted ↔ only? ms "type" = some (.string "suite") ∧
      (only? ms "event").bind word? = some "started" := by
  rw [ofMembers?_eq_some_iff]
  constructor
  · rintro ⟨type, single, taken⟩
    by_cases suite : type = "suite"
    · rw [if_pos suite] at taken
      obtain ⟨word, said, started⟩ := (suite?_eq_some_iff ms _).mp taken
      by_cases same : word = "started"
      · exact ⟨suite ▸ single, same ▸ said⟩
      · rw [if_neg same] at started
        cases started
    · rw [if_neg suite] at taken
      by_cases test : type = "test"
      · rw [if_pos test] at taken
        obtain ⟨word, name, output, message, _, _, _, _, impossible⟩ :=
          (test?_eq_some_iff ms _).mp taken
        exact absurd impossible (ofTest_ne_suiteStarted word name output message)
      · rw [if_neg test] at taken
        cases taken
  · rintro ⟨single, said⟩
    exact ⟨"suite", single, (suite?_eq_some_iff ms _).mpr ⟨"started", said, rfl⟩⟩

theorem ofMembers?_eq_testFinished_iff (ms : Members) (name : String) (outcome : Outcome) :
    ofMembers? ms = some (.testFinished name outcome) ↔
      only? ms "type" = some (.string "test") ∧ test? ms = some (.testFinished name outcome) := by
  rw [ofMembers?_eq_some_iff]
  constructor
  · rintro ⟨type, single, taken⟩
    by_cases suite : type = "suite"
    · rw [if_pos suite] at taken
      obtain ⟨word, _, impossible⟩ := (suite?_eq_some_iff ms _).mp taken
      split at impossible
      · cases impossible
      · cases impossible
    · rw [if_neg suite] at taken
      by_cases test : type = "test"
      · rw [if_pos test] at taken
        exact ⟨test ▸ single, taken⟩
      · rw [if_neg test] at taken
        cases taken
  · rintro ⟨single, taken⟩
    exact ⟨"test", single, taken⟩

theorem isSuiteStart_ofText (line : String) :
    (Line.ofText line).isSuiteStart = true ↔ StartsSuite line := by
  have event : (Line.ofText line).isSuiteStart = true ↔
      Line.ofText line = .event .suiteStarted := by
    cases Line.ofText line <;> simp [Line.isSuiteStart, Event.isSuiteStart]
  rw [event, ofText_eq_event_iff]
  exact exists_congr fun ms => and_congr_right fun _ => ofMembers?_eq_suiteStarted_iff ms

/-- The finished test that a line reports. -/
def Line.test? : Line → Option (String × Outcome)
  | .event (.testFinished name outcome) => some (name, outcome)
  | _ => none

theorem test?_ofText (line name : String) (outcome : Outcome) :
    (Line.ofText line).test? = some (name, outcome) ↔ FinishesTest line name outcome := by
  have event : (Line.ofText line).test? = some (name, outcome) ↔
      Line.ofText line = .event (.testFinished name outcome) := by
    unfold Line.test?
    split <;> simp_all
  rw [event, ofText_eq_event_iff]
  unfold FinishesTest
  simp only [ofMembers?_eq_testFinished_iff, test?_eq_testFinished_iff]
  constructor
  · rintro ⟨ms, object, typed, word, output, message, rest⟩
    exact ⟨ms, word, output, message, object, typed, rest⟩
  · rintro ⟨ms, word, output, message, object, typed, rest⟩
    exact ⟨ms, object, typed, word, output, message, rest⟩

theorem isSkipped_ofText (line : String) :
    (Line.ofText line).isSkipped = true ↔ IsSkipped line := by
  unfold IsSkipped
  cases begins : (trim line).toList.head? with
  | none =>
    have blank : trim line = "" := String.toList_inj.mp (List.head?_eq_none_iff.mp begins)
    rw [ofText_blank begins]
    simp [Line.isSkipped, blank]
  | some c =>
    have filled : trim line ≠ "" := by
      intro empty
      rw [empty] at begins
      cases begins
    by_cases brace : c = '\x7b'
    · subst brace
      rw [ofText_object begins]
      cases Json.Value.read? (trim line) with
      | none => simp [Line.isSkipped, filled]
      | some v => cases said : ofValue? v <;> simp [Line.isSkipped, filled, said]
    · rw [ofText_chatter begins brace]
      simp [Line.isSkipped, filled, brace]

instance : DecidablePred StartsSuite := fun line =>
  decidable_of_iff _ (isSuiteStart_ofText line)

instance : DecidablePred IsSkipped := fun line =>
  decidable_of_iff _ (isSkipped_ofText line)

/-- A line reports that some test finished. -/
def FinishesSome (line : String) : Prop :=
  ∃ name outcome, FinishesTest line name outcome

theorem isSome_test?_ofText (line : String) :
    (Line.ofText line).test?.isSome = true ↔ FinishesSome line := by
  rw [Option.isSome_iff_exists, Prod.exists]
  exact exists_congr fun name => exists_congr fun outcome => test?_ofText line name outcome

instance : DecidablePred FinishesSome := fun line =>
  decidable_of_iff _ (isSome_test?_ofText line)

theorem isSome_test? (l : Line) : l.test?.isSome = l.isTestFinish := by
  cases l with
  | blank | chatter text | foreign => rfl
  | event e => cases e <;> rfl

/-- A line starts the run exactly if it starts a suite or finishes a test. -/
theorem startsRun_ofText (line : String) :
    (Line.ofText line).startsRun = true ↔ StartsSuite line ∨ FinishesSome line := by
  rw [Line.startsRun, Bool.or_eq_true, isSuiteStart_ofText, ← isSome_test?, isSome_test?_ofText]

end RunLedger.Stream
