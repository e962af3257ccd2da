import RunLedger.Proofs.Stream.Report
import RunLedger.Stream.Reader

set_option autoImplicit false

namespace RunLedger.Stream

open Text Event
open Json (Value)

/-- One member has the name and this value, and no other has the name. -/
def Single (ms : Members) (name : String) (v : Value) : Prop :=
  ∃ before behind, ms = before ++ (name, v) :: behind ∧ ∀ m ∈ before ++ behind, m.1 ≠ name

/-- A value is a word: a string, or an object with a sole member of that name that holds nothing. -/
inductive Spells : Value → String → Prop
  | plain (word : String) : Spells (.string word) word
  | null (word : String) : Spells (.object [(word, .null)]) word
  | empty (word : String) : Spells (.object [(word, .object [])]) word

/-- One member at most has the name, and it is a text or null. -/
inductive MayHold (ms : Members) (name : String) : Option String → Prop
  | missing (absent : ∀ m ∈ ms, m.1 ≠ name) : MayHold ms name none
  | null (single : Single ms name .null) : MayHold ms name none
  | text {s : String} (single : Single ms name (.string s)) : MayHold ms name (some s)

/-- The members report on a suite in one word. -/
structure OnSuite (ms : Members) (word : String) : Prop where
  type : Single ms "type" (.string "suite")
  event : ∃ v, Single ms "event" v ∧ Spells v word

/-- The members report on a test in one word, with its name and what else is known of it. -/
structure OnTest (ms : Members) (word name : String) (output message : Option String) : Prop where
  type : Single ms "type" (.string "test")
  event : ∃ v, Single ms "event" v ∧ Spells v word
  name : Single ms "name" (.string name)
  output : MayHold ms "stdout" output
  message : MayHold ms "message" message

/-- What the members of an object say. -/
inductive Says (ms : Members) : Event → Prop
  | suiteStarted (suite : OnSuite ms "started") : Says ms .suiteStarted
  | suiteReport {word : String} (suite : OnSuite ms word) (other : word ≠ "started") :
      Says ms .other
  | testPassed {name : String} {output message : Option String}
      (test : OnTest ms "ok" name output message) : Says ms (.testFinished name .successful)
  | testFailed {name : String} {output message : Option String}
      (test : OnTest ms "failed" name output message) :
      Says ms (.testFinished name (.failed (message <|> output)))
  | testIgnored {name : String} {output message : Option String}
      (test : OnTest ms "ignored" name output message) :
      Says ms (.testFinished name (.skipped message))
  | testReport {word name : String} {output message : Option String}
      (test : OnTest ms word name output message) (other : word ∉ ["ok", "failed", "ignored"]) :
      Says ms .other
  | otherType {type : String} (single : Single ms "type" (.string type))
      (other : type ∉ ["suite", "test"]) : Says ms .other

/-- The names of the members that have a meaning. -/
def knownNames : List String :=
  ["type", "event", "name", "stdout", "message"]

def known (ms : Members) : Members :=
  ms.filter fun m => m.1 ∈ knownNames

theorem valuesOf_eq_nil_iff (ms : Members) (name : String) :
    valuesOf ms name = [] ↔ ∀ m ∈ ms, m.1 ≠ name := by
  simp [valuesOf, List.filter_eq_nil_iff]

theorem valuesOf_append (first second : Members) (name : String) :
    valuesOf (first ++ second) name = valuesOf first name ++ valuesOf second name := by
  simp only [valuesOf, List.filter_append, List.map_append]

theorem valuesOf_cons (m : String × Value) (ms : Members) (name : String) :
    valuesOf (m :: ms) name = (if m.1 = name then [m.2] else []) ++ valuesOf ms name := by
  by_cases same : m.1 = name <;> simp [valuesOf, same]

theorem valuesOf_eq_singleton_iff (ms : Members) (name : String) (v : Value) :
    valuesOf ms name = [v] ↔ Single ms name v := by
  constructor
  · intro values
    induction ms with
    | nil => cases values
    | cons m ms ih =>
      rw [valuesOf_cons] at values
      by_cases same : m.1 = name
      · rw [if_pos same] at values
        obtain ⟨value, rest⟩ := List.cons.inj values
        refine ⟨[], ms, ?_, (valuesOf_eq_nil_iff ms name).mp rest⟩
        rw [← same, ← value]
        rfl
      · rw [if_neg same] at values
        obtain ⟨before, behind, rfl, others⟩ := ih values
        refine ⟨m :: before, behind, rfl, ?_⟩
        exact List.forall_mem_cons.mpr ⟨same, others⟩
  · rintro ⟨before, behind, rfl, others⟩
    have front : valuesOf before name = [] :=
      (valuesOf_eq_nil_iff _ _).mpr fun m among => others m (List.mem_append_left _ among)
    have back : valuesOf behind name = [] :=
      (valuesOf_eq_nil_iff _ _).mpr fun m among => others m (List.mem_append_right _ among)
    rw [valuesOf_append, valuesOf_cons, front, back, if_pos rfl]
    rfl

theorem only?_eq_some_iff (ms : Members) (name : String) (v : Value) :
    only? ms name = some v ↔ Single ms name v := by
  rw [← valuesOf_eq_singleton_iff]
  unfold only?
  split
  · rename_i values
    simp [values]
  · rename_i several
    constructor
    · intro none
      cases none
    · intro values
      exact absurd values (several v)

theorem word?_eq_some_iff (v : Value) (word : String) : word? v = some word ↔ Spells v word := by
  constructor
  · intro said
    unfold word? at said
    split at said
    · cases said
      exact .plain word
    · cases said
      exact .null word
    · cases said
      exact .empty word
    · cases said
  · rintro (⟨⟩ | ⟨⟩ | ⟨⟩) <;> rfl

theorem text?_eq_some_iff (ms : Members) (name : String) (text : Option String) :
    text? ms name = some text ↔ MayHold ms name text := by
  constructor
  · intro said
    unfold text? at said
    split at said
    · rename_i values
      cases said
      exact .missing ((valuesOf_eq_nil_iff _ _).mp values)
    · rename_i values
      cases said
      exact .null ((valuesOf_eq_singleton_iff _ _ _).mp values)
    · rename_i s values
      cases said
      exact .text ((valuesOf_eq_singleton_iff _ _ _).mp values)
    · cases said
  · intro holds
    unfold text?
    cases holds with
    | missing absent => rw [(valuesOf_eq_nil_iff _ _).mpr absent]
    | null single => rw [(valuesOf_eq_singleton_iff _ _ _).mpr single]
    | text single => rw [(valuesOf_eq_singleton_iff _ _ _).mpr single]

/-- The word of the one member that is named `event`. -/
theorem event_word_iff (ms : Members) (word : String) :
    (only? ms "event").bind word? = some word ↔ ∃ v, Single ms "event" v ∧ Spells v word := by
  simp only [Option.bind_eq_some_iff, only?_eq_some_iff, word?_eq_some_iff]

theorem says_of_suite {ms : Members} {word : String} (suite : OnSuite ms word) :
    Says ms (if word = "started" then .suiteStarted else .other) := by
  by_cases started : word = "started"
  · rw [if_pos started]
    exact .suiteStarted (started ▸ suite)
  · rw [if_neg started]
    exact .suiteReport suite started

theorem says_of_test {ms : Members} {word name : String} {output message : Option String}
    (test : OnTest ms word name output message) : Says ms (ofTest word name output message) := by
  unfold ofTest
  split
  · rename_i ok
    exact .testPassed (ok ▸ test)
  · rename_i notOk
    split
    · rename_i failed
      exact .testFailed (failed ▸ test)
    · rename_i notFailed
      split
      · rename_i ignored
        exact .testIgnored (ignored ▸ test)
      · rename_i notIgnored
        exact .testReport test (by simp [notOk, notFailed, notIgnored])

theorem OnSuite.ofMembers?_eq {ms : Members} {word : String} (suite : OnSuite ms word) :
    ofMembers? ms = some (if word = "started" then .suiteStarted else .other) := by
  have taken : suite? ms = some (if word = "started" then .suiteStarted else .other) :=
    (suite?_eq_some_iff ms _).mpr ⟨word, (event_word_iff ms word).mpr suite.event, rfl⟩
  exact (ofMembers?_eq_some_iff ms _).mpr
    ⟨"suite", (only?_eq_some_iff _ _ _).mpr suite.type, taken⟩

theorem OnTest.ofMembers?_eq {ms : Members} {word name : String} {output message : Option String}
    (test : OnTest ms word name output message) :
    ofMembers? ms = some (ofTest word name output message) := by
  have taken : test? ms = some (ofTest word name output message) :=
    (test?_eq_some_iff ms _).mpr ⟨word, name, output, message,
      (event_word_iff ms word).mpr test.event, (only?_eq_some_iff _ _ _).mpr test.name,
      (text?_eq_some_iff _ _ _).mpr test.output, (text?_eq_some_iff _ _ _).mpr test.message, rfl⟩
  exact (ofMembers?_eq_some_iff ms _).mpr ⟨"test", (only?_eq_some_iff _ _ _).mpr test.type, taken⟩

/-- The members say an event exactly if it is taken from them. -/
theorem ofMembers?_eq_some_iff_grammar (ms : Members) (e : Event) :
    ofMembers? ms = some e ↔ Says ms e := by
  constructor
  · intro said
    obtain ⟨type, single, taken⟩ := (ofMembers?_eq_some_iff ms e).mp said
    have typed := (only?_eq_some_iff _ _ _).mp single
    by_cases suite : type = "suite"
    · rw [if_pos suite] at taken
      obtain ⟨word, event, rfl⟩ := (suite?_eq_some_iff ms e).mp taken
      exact says_of_suite ⟨suite ▸ typed, (event_word_iff ms word).mp event⟩
    · rw [if_neg suite] at taken
      by_cases test : type = "test"
      · rw [if_pos test] at taken
        obtain ⟨word, name, output, message, event, named, printed, told, rfl⟩ :=
          (test?_eq_some_iff ms e).mp taken
        exact says_of_test ⟨test ▸ typed, (event_word_iff ms word).mp event,
          (only?_eq_some_iff _ _ _).mp named, (text?_eq_some_iff _ _ _).mp printed,
          (text?_eq_some_iff _ _ _).mp told⟩
      · rw [if_neg test] at taken
        cases taken
        exact .otherType typed (by simp [suite, test])
  · intro stated
    cases stated with
    | suiteStarted suite => exact suite.ofMembers?_eq
    | suiteReport suite other => rw [suite.ofMembers?_eq, if_neg other]
    | testPassed test => exact test.ofMembers?_eq
    | testFailed test => exact test.ofMembers?_eq
    | testIgnored test => exact test.ofMembers?_eq
    | testReport test other =>
      simp only [List.mem_cons, List.not_mem_nil, or_false, not_or] at other
      rw [test.ofMembers?_eq, ofTest, if_neg other.1, if_neg other.2.1, if_neg other.2.2]
    | @otherType type single other =>
      simp only [List.mem_cons, List.not_mem_nil, or_false, not_or] at other
      refine (ofMembers?_eq_some_iff ms _).mpr ⟨type, (only?_eq_some_iff _ _ _).mpr single, ?_⟩
      rw [if_neg other.1, if_neg other.2]

/-- The values of a known name are the same, up to their order, where the known members are. -/
theorem valuesOf_perm {ms ms' : Members} (same : (known ms).Perm (known ms')) {name : String}
    (meaning : name ∈ knownNames) : (valuesOf ms name).Perm (valuesOf ms' name) := by
  have among (ms : Members) : valuesOf (known ms) name = valuesOf ms name := by
    unfold valuesOf known
    rw [List.filter_filter]
    congr 2
    funext m
    by_cases named : m.1 = name <;> simp [named, meaning]
  rw [← among ms, ← among ms']
  exact (same.filter _).map _

theorem Single.perm {ms ms' : Members} (same : (known ms).Perm (known ms')) {name : String}
    (meaning : name ∈ knownNames) {v : Value} (single : Single ms name v) : Single ms' name v := by
  have values := valuesOf_perm same meaning
  rw [(valuesOf_eq_singleton_iff _ _ _).mpr single] at values
  exact (valuesOf_eq_singleton_iff _ _ _).mp values.symm.eq_singleton

theorem MayHold.perm {ms ms' : Members} (same : (known ms).Perm (known ms')) {name : String}
    (meaning : name ∈ knownNames) {text : Option String} (holds : MayHold ms name text) :
    MayHold ms' name text := by
  cases holds with
  | missing absent =>
    have values := valuesOf_perm same meaning
    rw [(valuesOf_eq_nil_iff _ _).mpr absent] at values
    exact .missing ((valuesOf_eq_nil_iff _ _).mp values.symm.eq_nil)
  | null single => exact .null (single.perm same meaning)
  | text single => exact .text (single.perm same meaning)

theorem OnSuite.perm {ms ms' : Members} (same : (known ms).Perm (known ms')) {word : String}
    (suite : OnSuite ms word) : OnSuite ms' word := by
  obtain ⟨v, single, spells⟩ := suite.event
  exact ⟨suite.type.perm same (by decide), v, single.perm same (by decide), spells⟩

theorem OnTest.perm {ms ms' : Members} (same : (known ms).Perm (known ms')) {word name : String}
    {output message : Option String} (test : OnTest ms word name output message) :
    OnTest ms' word name output message := by
  obtain ⟨v, single, spells⟩ := test.event
  exact ⟨test.type.perm same (by decide), ⟨v, single.perm same (by decide), spells⟩,
    test.name.perm same (by decide), test.output.perm same (by decide),
    test.message.perm same (by decide)⟩

/-- Neither the order of the members nor those of other names change what is said. -/
theorem Says.perm {ms ms' : Members} (same : (known ms).Perm (known ms')) {e : Event}
    (stated : Says ms e) : Says ms' e := by
  cases stated with
  | suiteStarted suite => exact .suiteStarted (suite.perm same)
  | suiteReport suite other => exact .suiteReport (suite.perm same) other
  | testPassed test => exact .testPassed (test.perm same)
  | testFailed test => exact .testFailed (test.perm same)
  | testIgnored test => exact .testIgnored (test.perm same)
  | testReport test other => exact .testReport (test.perm same) other
  | otherType single other => exact .otherType (single.perm same (by decide)) other

theorem ofMembers?_perm {ms ms' : Members} (same : (known ms).Perm (known ms')) :
    ofMembers? ms = ofMembers? ms' := by
  apply Option.ext
  intro e
  rw [ofMembers?_eq_some_iff_grammar, ofMembers?_eq_some_iff_grammar]
  exact ⟨Says.perm same, Says.perm same.symm⟩

def Tally.plus (a b : Tally) : Tally :=
  ⟨a.suitesStarted + b.suitesStarted, a.testsFinished + b.testsFinished,
    a.linesSkipped + b.linesSkipped⟩

/-- The loop of a reader takes a line like this, wherever the line is: it starts the run if need be,
acts, counts, and goes on with the lines that follow. -/
def TakenAs (line : String) (starts : Bool) (acts : Reader → Nat → List Action) (count : Tally) :
    Prop :=
  ∀ (r : Reader) (started : Bool) (n : Nat) (rest : List Line),
    r.actions started n (Line.ofText line :: rest) =
        (if starts ∧ ¬ started then [.hook (.runStarted r.parameters)] else []) ++ acts r n ++
          r.actions (started || starts) (n + 1) rest ∧
      Tally.ofLines (Line.ofText line :: rest) = count.plus (Tally.ofLines rest)

theorem takenAs_ofText (line : String) :
    TakenAs line (Line.ofText line).startsRun (fun r n => r.lineActions n (Line.ofText line))
      (Tally.ofLines [Line.ofText line]) := by
  intro r started n rest
  refine ⟨rfl, ?_⟩
  generalize Line.ofText line = l
  simp only [Tally.ofLines, Tally.plus, List.countP_cons, List.countP_nil, Nat.zero_add,
    Nat.add_comm]

/-- What is read from a line that begins as an object. -/
theorem ofText_of_read {line : String} (begins : (trim line).toList.head? = some '\x7b')
    {ms : Members} (read : Json.Value.read? (trim line) = some (.object ms)) :
    Line.ofText line = (ofMembers? ms).elim .foreign .event := by
  rw [ofText_object begins, read, Option.bind_some, ofValue?]
  cases ofMembers? ms <;> rfl

theorem ofText_eq_foreign_iff {line : String} (begins : (trim line).toList.head? = some '\x7b') :
    Line.ofText line = .foreign ↔
      ¬ ∃ ms e, Json.Value.read? (trim line) = some (.object ms) ∧ Says ms e := by
  have event := ofText_eq_event_iff line
  unfold IsObject at event
  simp only [begins, true_and, ofMembers?_eq_some_iff_grammar] at event
  constructor
  · rintro foreign ⟨ms, e, read, stated⟩
    have dispatched := (event e).mpr ⟨ms, read, stated⟩
    rw [foreign] at dispatched
    cases dispatched
  · intro silent
    rw [ofText_object begins]
    split
    · rename_i e said
      obtain ⟨ms, read, stated⟩ := (event e).mp (by rw [ofText_object begins, said])
      exact absurd ⟨ms, e, read, stated⟩ silent
    · rfl

/-- A line that begins as an object is skipped and counted so unless it is an object whose members
say an event. A suite that starts and a test that finishes start the run if it has not started, and
are counted; a finished test is announced as well. Any other event is passed over. Only the members
with a meaning count for this, in whatever order they stand. -/
theorem object_line_taken {line : String} (begins : (trim line).toList.head? = some '\x7b') :
    ((¬ ∃ ms e, Json.Value.read? (trim line) = some (.object ms) ∧ Says ms e) →
        TakenAs line false (fun _ n => [.log ⟨.debug,
          "skipping line " ++ toString n ++ ", not a libtest event"⟩]) ⟨0, 0, 1⟩) ∧
      ∀ ms, Json.Value.read? (trim line) = some (.object ms) →
        (Says ms .suiteStarted → TakenAs line true (fun _ _ => []) ⟨1, 0, 0⟩) ∧
        (∀ name outcome, Says ms (.testFinished name outcome) →
          TakenAs line true
            (fun r _ => [.hook (.caseFinished ⟨uniqueId r.binaryId name, .test⟩ outcome)])
            ⟨0, 1, 0⟩) ∧
        (Says ms .other → TakenAs line false (fun _ _ => []) ⟨0, 0, 0⟩) ∧
        ∀ line' ms', (trim line').toList.head? = some '\x7b' →
          Json.Value.read? (trim line') = some (.object ms') → (known ms').Perm (known ms) →
            Line.ofText line' = Line.ofText line := by
  have taken := takenAs_ofText line
  constructor
  · intro silent
    rw [(ofText_eq_foreign_iff begins).mpr silent] at taken
    exact taken
  · intro ms read
    have takes {e : Event} (stated : Says ms e) : TakenAs line (Line.event e).startsRun
        (fun r n => r.lineActions n (.event e)) (Tally.ofLines [.event e]) := by
      have dispatched : Line.ofText line = .event e := by
        rw [ofText_of_read begins read, (ofMembers?_eq_some_iff_grammar ms e).mpr stated]
        rfl
      rw [dispatched] at taken
      exact taken
    refine ⟨takes, fun name outcome => takes, takes, ?_⟩
    intro line' ms' begins' read' same
    rw [ofText_of_read begins read, ofText_of_read begins' read', ofMembers?_perm same]

/-- A test that passed, with its type behind all else and a member more that is nested. -/
def shuffled : String :=
  "\x7b\"event\":\x7b\"ok\":null\x7d,\"tag\":[\x7b\x7d],\"name\":\"a\",\"type\":\"test\"\x7d"

theorem shuffled_taken :
    (trim shuffled).toList.head? = some '\x7b' ∧
      (∃ ms, Json.Value.read? (trim shuffled) = some (.object ms) ∧
        Says ms (.testFinished "a" .successful)) ∧
      TakenAs shuffled true
        (fun r _ => [.hook (.caseFinished ⟨uniqueId r.binaryId "a", .test⟩ .successful)])
        ⟨0, 1, 0⟩ := by
  have event : Line.ofText shuffled = .event (.testFinished "a" .successful) := by decide +kernel
  obtain ⟨ms, ⟨begins, read⟩, said⟩ := (ofText_eq_event_iff _ _).mp event
  have stated := (ofMembers?_eq_some_iff_grammar ms _).mp said
  exact ⟨begins, ⟨ms, read, stated⟩, ((object_line_taken begins).2 ms read).2.1 "a" _ stated⟩

end RunLedger.Stream
