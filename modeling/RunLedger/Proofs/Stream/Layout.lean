import Mathlib.Logic.Relation
import RunLedger.Proofs.Output.Content
import RunLedger.Proofs.Stream.Truncation

set_option autoImplicit false

namespace RunLedger.Stream

open Text Output Relation

/-- A line begins behind the text. -/
def WholeLines (text : String) : Prop :=
  text = "" ∨ text.toList.getLast? = some '\n'

/-- A line ends in front of the text. -/
def AtLineEnd (text : String) : Prop :=
  text = "" ∨ text.toList.head? = some '\n'

/-- White space that ends no line. -/
def IsPadding (text : String) : Prop :=
  IsWhite text.toList ∧ '\n' ∉ text.toList

instance : DecidablePred WholeLines := fun _ => inferInstanceAs (Decidable (_ ∨ _))

instance : DecidablePred AtLineEnd := fun _ => inferInstanceAs (Decidable (_ ∨ _))

instance : DecidablePred IsPadding := fun _ => inferInstanceAs (Decidable (_ ∧ _))

/-- One change to the layout of a text. White space comes between a line and its carriage return
when the carriage return is taken away, the line is padded, and a carriage return is put back. -/
inductive Relays : String → String → Prop
  /-- white space is put on both sides of a line -/
  | padded {before line behind left right : String} (whole : WholeLines before)
      (single : '\n' ∉ line.toList) (ends : AtLineEnd behind) (front : IsPadding left)
      (back : IsPadding right) :
      Relays (before ++ line ++ behind) (before ++ (left ++ line ++ right) ++ behind)
  /-- a blank line is put where a line begins -/
  | inserted {before blank : String} (behind : String) (whole : WholeLines before)
      (white : IsPadding blank) : Relays (before ++ behind) (before ++ (blank ++ "\n") ++ behind)
  /-- a line that ends with a line feed has a carriage return in front of it -/
  | returned (before behind : String) :
      Relays (before ++ "\n" ++ behind) (before ++ "\r\n" ++ behind)
  /-- a line feed is put behind the last line -/
  | terminated (text : String) : Relays text (text ++ "\n")

/-- Texts that differ only in their layout: changes to it, and the reverse of such, turn the one
into the other. -/
def Relaid : String → String → Prop :=
  EqvGen Relays

/-- What the lines of a text say: all but the white space around them, of those that are not
blank. -/
def said (text : String) : List String :=
  ((Output.lines text).map trim).filter (· ≠ "")

theorem said_feed (one other : String) : said (one ++ "\n" ++ other) = said one ++ said other := by
  have parts : Output.lines (one ++ "\n" ++ other) = Output.lines one ++ Output.lines other := by
    have chars : (one ++ "\n" ++ other).toList = one.toList ++ '\n' :: other.toList := by simp
    rw [Output.lines, Output.lines, Output.lines, chars, List.splitOn_append_cons_self,
      List.map_append]
  rw [said, said, said, parts, List.map_append, List.filter_append]

theorem said_empty : said "" = [] := by
  decide

theorem said_single {line : String} (single : '\n' ∉ line.toList) :
    said line = [trim line].filter (· ≠ "") := by
  rw [said, lines_of_not_mem single, List.map_singleton]

theorem said_congr {line line' : String} (single : '\n' ∉ line.toList)
    (single' : '\n' ∉ line'.toList) (same : trim line = trim line') : said line = said line' := by
  rw [said_single single, said_single single', same]

theorem said_behind {before : String} (whole : WholeLines before) (rest : String) :
    said (before ++ rest) = said before ++ said rest := by
  rcases whole with rfl | ends
  · rw [said_empty, String.empty_append, List.nil_append]
  · obtain ⟨front, chars⟩ := List.getLast?_eq_some_iff.mp ends
    have split : before = String.ofList front ++ "\n" ++ "" := by
      rw [← String.toList_inj, chars]
      simp
    have joined : before ++ rest = String.ofList front ++ "\n" ++ rest := by
      rw [split, String.append_empty]
    rw [joined, said_feed, split, said_feed, said_empty, List.append_nil]

theorem said_in_front {behind : String} (ends : AtLineEnd behind) (line : String) :
    said (line ++ behind) = said line ++ said behind := by
  rcases ends with rfl | feed
  · rw [said_empty, String.append_empty, List.append_nil]
  · obtain ⟨rest, chars⟩ := List.head?_eq_some_iff.mp feed
    have split : behind = "" ++ "\n" ++ String.ofList rest := by
      rw [← String.toList_inj, chars]
      simp
    have joined : line ++ behind = line ++ "\n" ++ String.ofList rest := by
      rw [split, String.empty_append, String.append_assoc]
    rw [joined, said_feed, split, said_feed, said_empty, List.nil_append]

theorem trim_padded {left right : String} (front : IsPadding left) (back : IsPadding right)
    (line : String) : trim (left ++ line ++ right) = trim line := by
  rw [trim, trim, String.toList_append, String.toList_append, trimChars_around front.1 back.1]

theorem IsPadding.said_eq {blank : String} (white : IsPadding blank) : said blank = [] := by
  have nothing : trim blank = "" := by
    rw [trim, (trimChars_eq_nil_iff _).mpr white.1]
  rw [said_single white.2, nothing]
  rfl

theorem exists_last_line (text : String) :
    ∃ before line, text = before ++ line ∧ WholeLines before ∧ '\n' ∉ line.toList := by
  have parts := List.takeWhile_append_dropWhile (p := (· != '\n')) (l := text.toList.reverse)
  refine ⟨String.ofList (text.toList.reverse.dropWhile (· != '\n')).reverse,
    String.ofList (text.toList.reverse.takeWhile (· != '\n')).reverse, ?_, ?_, ?_⟩
  · rw [← String.toList_inj, String.toList_append, String.toList_ofList, String.toList_ofList,
      ← List.reverse_append, parts, List.reverse_reverse]
  · cases rest : text.toList.reverse.dropWhile (· != '\n') with
    | nil => exact .inl rfl
    | cons c rest =>
      have head := List.head?_dropWhile_not (· != '\n') text.toList.reverse
      rw [rest] at head
      have feed : c = '\n' := by simpa using head
      right
      rw [feed]
      simp
  · intro among
    rw [String.toList_ofList, List.mem_reverse] at among
    have other := List.mem_takeWhile_imp among
    simp at other

/-- One change to the layout keeps what the lines say. -/
theorem Relays.said_eq {text text' : String} (relays : Relays text text') :
    said text' = said text := by
  cases relays with
  | @padded before line behind left right whole single ends front back =>
    have single' : '\n' ∉ (left ++ line ++ right).toList := by
      simp [single, front.2, back.2]
    have same := said_congr single' single (trim_padded front back line)
    rw [said_in_front ends, said_in_front ends, said_behind whole, said_behind whole, same]
  | @inserted before blank behind whole white =>
    rw [← String.append_assoc, said_feed, said_behind whole, white.said_eq, List.append_nil,
      said_behind whole]
  | returned before behind =>
    obtain ⟨front, line, rfl, whole, single⟩ := exists_last_line before
    have single' : '\n' ∉ (line ++ "\r").toList := by
      simp [single]
    have return_white : IsWhite "\r".toList := by decide
    have same : trim (line ++ "\r") = trim line := by
      rw [trim, trim, String.toList_append, trimChars_append_white _ return_white]
    have joined :
        front ++ line ++ "\r\n" ++ behind = front ++ (line ++ "\r") ++ "\n" ++ behind := by
      rw [← String.toList_inj]
      simp
    rw [joined, said_feed, said_feed, said_behind whole, said_behind whole,
      said_congr single' single same]
  | terminated =>
    have behind := said_feed text ""
    rw [said_empty, List.append_nil, String.append_empty] at behind
    exact behind

theorem Relaid.said_eq {text text' : String} (relaid : Relaid text text') :
    said text = said text' := by
  induction relaid with
  | rel _ _ relays => exact relays.said_eq.symm
  | refl _ => rfl
  | symm _ _ _ ih => exact ih.symm
  | trans _ _ _ _ _ first second => exact first.trans second

theorem splitOn_encode (text : String) :
    (Utf8.encode text).splitOn 0x0A = (Output.lines text).map Utf8.encode := by
  have closed := splitOn_eq_splitLines (Utf8.encode text ++ 0x0A :: [])
  rw [List.splitOn_append_cons_self, Utf8.encode, splitLines_encodeChars] at closed
  have spelled : (Output.lines text).map Utf8.encode =
      (text.toList.splitOn '\n').map Utf8.encodeChars := by
    rw [Output.lines, List.map_map]
    refine List.map_congr_left fun piece _ => ?_
    rw [Function.comp_apply, Utf8.encode, String.toList_ofList]
  rw [spelled, Utf8.encode]
  simpa [splitLines] using closed

/-- The lines of a text that are delivered: what is behind the last line feed is none if it is
empty. -/
def deliveredLines (text : String) : List String :=
  if (Output.lines text).getLast? = some "" then (Output.lines text).dropLast else Output.lines text

theorem delivered_encode (text : String) :
    Source.delivered ⟨Utf8.encode text, none⟩ = (deliveredLines text).map Utf8.encode := by
  have nothing (line : String) : Utf8.encode line = [] ↔ line = "" := Utf8.encode_inj (t := "")
  have last : ((Output.lines text).map Utf8.encode).getLast? = some [] ↔
      (Output.lines text).getLast? = some "" := by
    rw [List.getLast?_map, Option.map_eq_some_iff]
    simp only [nothing, exists_eq_right]
  rw [Source.delivered, splitOn_encode, deliveredLines]
  simp only [Option.isNone_none, true_and, ne_eq, last]
  by_cases open_ : (Output.lines text).getLast? = some ""
  · rw [if_neg (not_not.mpr open_), if_pos open_, List.map_dropLast]
  · rw [if_pos open_, if_neg open_]

/-- An empty line says nothing, so the lines that are delivered say what all lines say. -/
theorem said_delivered (text : String) :
    ((deliveredLines text).map trim).filter (· ≠ "") = said text := by
  rw [deliveredLines, said]
  split
  · rename_i last
    obtain ⟨front, parts⟩ := List.getLast?_eq_some_iff.mp last
    have nothing : trim "" = "" := by decide
    rw [parts, List.dropLast_concat, List.map_append, List.filter_append]
    simp [nothing]
  · rfl

theorem takeWhile_delivered (text : String) :
    (Source.delivered ⟨Utf8.encode text, none⟩).takeWhile (fun line => IsText line) =
      (deliveredLines text).map Utf8.encode := by
  rw [delivered_encode, List.takeWhile_eq_self_iff]
  intro raw among
  obtain ⟨line, -, rfl⟩ := List.mem_map.mp among
  rw [decide_eq_true_iff, IsText, Utf8.decode?_encode]
  rfl

/-- What is read of a text is what its lines say. -/
theorem trim_texts (text : String) :
    (texts (Source.lines ⟨Utf8.encode text, none⟩)).map trim = (deliveredLines text).map trim := by
  have read := forall₂_texts (forall₂_lines ⟨Utf8.encode text, none⟩)
  rw [takeWhile_delivered, List.forall₂_map_left_iff] at read
  have same : List.Forall₂ (· = ·) ((texts (Source.lines ⟨Utf8.encode text, none⟩)).map trim)
      ((deliveredLines text).map trim) := by
    rw [List.forall₂_map_left_iff, List.forall₂_map_right_iff]
    refine read.flip.imp fun line line' agree => ?_
    rw [Utf8.decode?_encode, Option.map_some] at agree
    exact (Option.some.inj agree).symm
  rw [List.forall₂_eq_eq_eq] at same
  exact same

theorem result_encode (r : Reader) (text : String) :
    (r.read ⟨Utf8.encode text, none⟩).result = .ok (r.read ⟨Utf8.encode text, none⟩).tally := by
  have all : ¬ (texts (Source.lines ⟨Utf8.encode text, none⟩)).length <
      (Source.lines ⟨Utf8.encode text, none⟩).length := by
    rw [length_texts, ← length_delivered, takeWhile_delivered, delivered_encode]
    exact Nat.lt_irrefl _
  have failure (s : Source) : (r.read s).failure = Reader.failure? s := rfl
  rw [Reading.result_eq_ok, failure, Reader.failure?, if_neg all]
  exact ⟨rfl, rfl⟩

/-- The lines that are not blank, as what they are. -/
def spoken (ls : List Line) : List Line :=
  ls.filter (· ≠ .blank)

theorem trim_trim (line : String) : trim (trim line) = trim line := by
  rw [trim, trim, String.toList_ofList, trimChars_trimChars]

/-- The line that a text is depends on what is left of it when it is trimmed. -/
theorem ofText_trim (line : String) : Line.ofText (trim line) = Line.ofText line := by
  rw [Line.ofText, Line.ofText, trim_trim]

theorem ofText_eq_blank_iff (line : String) : Line.ofText line = .blank ↔ trim line = "" := by
  cases begins : (trim line).toList.head? with
  | none =>
    have nothing : trim line = "" := String.toList_inj.mp (List.head?_eq_none_iff.mp begins)
    exact iff_of_true (ofText_blank begins) nothing
  | some c =>
    have filled : trim line ≠ "" := by
      intro empty
      rw [empty] at begins
      cases begins
    refine iff_of_false ?_ filled
    by_cases brace : c = '\x7b'
    · rw [ofText_object (brace ▸ begins)]
      split <;> simp
    · rw [ofText_chatter begins brace]
      simp

/-- What lines are is told by what they say. -/
theorem spoken_eq (lines : List String) :
    spoken (lines.map Line.ofText) = ((lines.map trim).filter (· ≠ "")).map Line.ofText := by
  induction lines with
  | nil => rfl
  | cons line rest ih =>
    rw [spoken] at ih ⊢
    rw [List.map_cons, List.map_cons, List.filter_cons, List.filter_cons]
    by_cases blank : trim line = ""
    · have nothing := (ofText_eq_blank_iff line).mpr blank
      simp only [nothing, blank, ne_eq, not_true_eq_false, decide_false, Bool.false_eq_true,
        ↓reduceIte]
      exact ih
    · have something : Line.ofText line ≠ .blank := mt (ofText_eq_blank_iff line).mp blank
      simp only [something, blank, ne_eq, not_false_eq_true, decide_true, ↓reduceIte, List.map_cons,
        ofText_trim]
      exact congrArg _ ih

theorem spoken_texts (text : String) :
    spoken ((texts (Source.lines ⟨Utf8.encode text, none⟩)).map Line.ofText) =
      (said text).map Line.ofText := by
  rw [spoken_eq, trim_texts, said_delivered]

/-- Blank lines start no run, finish no test and are not counted. -/
theorem tally_spoken (ls : List Line) : Tally.ofLines (spoken ls) = Tally.ofLines ls := by
  have counted (q : Line → Bool) (quiet : q .blank = false) :
      (spoken ls).countP q = ls.countP q := by
    rw [spoken, List.countP_filter]
    refine List.countP_congr fun l _ => ?_
    by_cases blank : l = .blank
    · simp [blank, quiet]
    · simp [blank]
  rw [Tally.ofLines, counted _ rfl, counted _ rfl, counted _ rfl, Tally.ofLines]

theorem any_spoken (ls : List Line) : (spoken ls).any (·.startsRun) = ls.any (·.startsRun) := by
  rw [spoken, List.any_filter]
  congr 1
  funext l
  cases l <;> rfl

theorem tests_spoken (ls : List Line) :
    (spoken ls).filterMap Line.test? = ls.filterMap Line.test? := by
  rw [spoken, List.filterMap_filter]
  congr 1
  funext l
  cases l <;> rfl

/-- What is announced and counted of a text depends on what its lines say. -/
theorem read_of_said (r : Reader) {text text' : String} (same : said text = said text') :
    hooksOf (r.read ⟨Utf8.encode text, none⟩).actions =
        hooksOf (r.read ⟨Utf8.encode text', none⟩).actions ∧
      (r.read ⟨Utf8.encode text, none⟩).tally = (r.read ⟨Utf8.encode text', none⟩).tally := by
  have lines : spoken ((texts (Source.lines ⟨Utf8.encode text, none⟩)).map Line.ofText) =
      spoken ((texts (Source.lines ⟨Utf8.encode text', none⟩)).map Line.ofText) := by
    rw [spoken_texts, spoken_texts, same]
  constructor
  · rw [hooksOf_read, hooksOf_read, ← any_spoken, ← tests_spoken, lines, any_spoken, tests_spoken]
  · change Tally.ofLines _ = Tally.ofLines _
    rw [← tally_spoken, lines, tally_spoken]

/-- Two texts differ only in their layout. As streams both are read to their end, with the same
counts and the same announcements. -/
theorem read_relaid (r : Reader) {text text' : String} (relaid : Relaid text text') :
    ∃ counts, (r.read ⟨Utf8.encode text, none⟩).result = .ok counts ∧
      (r.read ⟨Utf8.encode text', none⟩).result = .ok counts ∧
      hooksOf (r.read ⟨Utf8.encode text', none⟩).actions =
        hooksOf (r.read ⟨Utf8.encode text, none⟩).actions := by
  obtain ⟨hooks, tally⟩ := read_of_said r relaid.said_eq
  refine ⟨_, result_encode r text, ?_, hooks.symm⟩
  rw [result_encode, tally]

/-- A line that starts a suite, and one of a test that passed. -/
def suiteLine : String :=
  "\x7b\"type\":\"suite\",\"event\":\"started\"\x7d"

def testLine : String :=
  "\x7b\"type\":\"test\",\"name\":\"a\",\"event\":\"ok\"\x7d"

/-- Both lines without anything around them, the second one without an end. -/
def compact : String :=
  suiteLine ++ "\n" ++ testLine

/-- The same lines with white space around the first one, which has a carriage return at its end,
with a blank line between them, and with an end of the second one. -/
def spread : String :=
  "\u00a0" ++ suiteLine ++ "\t" ++ "\r\n" ++ "\u2003\n" ++ testLine ++ "\n"

theorem spread_read_as_compact :
    Relaid compact spread ∧
      let r : Reader := ⟨Dictionary.empty.parameters, none⟩
      (r.read ⟨Utf8.encode spread, none⟩).result = .ok ⟨1, 1, 0⟩ ∧
        hooksOf (r.read ⟨Utf8.encode spread, none⟩).actions = [.runStarted r.parameters,
          .caseFinished ⟨"[test:a]", .test⟩ .successful, .runFinished r.parameters] := by
  let r : Reader := ⟨Dictionary.empty.parameters, none⟩
  have padded : Relays compact ("\u00a0" ++ suiteLine ++ "\t" ++ "\n" ++ testLine) := by
    have single : '\n' ∉ suiteLine.toList := by simp [suiteLine]
    have ends : AtLineEnd ("\n" ++ testLine) := .inr (by simp)
    have front : IsPadding "\u00a0" := by decide
    have back : IsPadding "\t" := by decide
    have relays := Relays.padded (.inl rfl : WholeLines "") single ends front back
    rwa [String.empty_append, ← String.append_assoc, String.empty_append, ← String.append_assoc]
      at relays
  have returned : Relays ("\u00a0" ++ suiteLine ++ "\t" ++ "\n" ++ testLine)
      ("\u00a0" ++ suiteLine ++ "\t" ++ "\r\n" ++ testLine) := .returned _ _
  have inserted : Relays ("\u00a0" ++ suiteLine ++ "\t" ++ "\r\n" ++ testLine)
      ("\u00a0" ++ suiteLine ++ "\t" ++ "\r\n" ++ ("\u2003" ++ "\n") ++ testLine) := by
    have whole : WholeLines ("\u00a0" ++ suiteLine ++ "\t" ++ "\r\n") :=
      .inr (by simp [List.getLast?_cons, List.getLast?_append])
    have white : IsPadding "\u2003" := by decide
    exact .inserted testLine whole white
  have terminated :
      Relays ("\u00a0" ++ suiteLine ++ "\t" ++ "\r\n" ++ ("\u2003" ++ "\n") ++ testLine)
      spread := .terminated _
  have relaid : Relaid compact spread :=
    (EqvGen.rel _ _ padded).trans _ _ _ ((EqvGen.rel _ _ returned).trans _ _ _
      ((EqvGen.rel _ _ inserted).trans _ _ _ (.rel _ _ terminated)))
  obtain ⟨tally, starts, passed⟩ : (r.read ⟨Utf8.encode compact, none⟩).tally = ⟨1, 1, 0⟩ ∧
      ((texts (Source.lines ⟨Utf8.encode compact, none⟩)).map Line.ofText).any
        (·.startsRun) = true ∧
        (r.read ⟨Utf8.encode compact, none⟩).cases = [(⟨"[test:a]", .test⟩, .successful)] := by
    decide +kernel
  have announces := (hooksOf_read_cases r ⟨Utf8.encode compact, none⟩).1
    ((starts_read r _).mpr starts)
  obtain ⟨counts, one, other, hooks⟩ := read_relaid r relaid
  have counted : counts = ⟨1, 1, 0⟩ := by
    rw [← tally, ← ((Reading.result_eq_ok _ _).mp one).2]
  rw [passed] at announces
  exact ⟨relaid, counted ▸ other, hooks.trans announces⟩

end RunLedger.Stream
