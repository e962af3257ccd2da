import RunLedger.Output.Error
import RunLedger.Parameters.Document
import RunLedger.Proofs.Output.Content
import RunLedger.Stream.Error

set_option autoImplicit false

namespace RunLedger

open Output

/-- None of the texts has a line feed. -/
def Plain (texts : List String) : Prop :=
  ∀ m ∈ texts, '\n' ∉ m.toList

instance (texts : List String) : Decidable (Plain texts) :=
  inferInstanceAs (Decidable (∀ m ∈ texts, _))

namespace Chain

/-- The messages of a failure and its causes, its own first. -/
def messages (c : Chain) : List String :=
  c.message :: c.causes

/-- The nearest cause, with the causes behind it. -/
def source? (c : Chain) : Option Chain :=
  ofMessages c.causes

theorem eq_of_source?_eq_none {c : Chain} (last : c.source? = none) : c = ⟨c.message, []⟩ := by
  obtain ⟨m, causes⟩ := c
  cases causes with
  | nil => rfl
  | cons k ks => exact nomatch last

theorem eq_under_of_source? {c d : Chain} (next : c.source? = some d) : c = d.under c.message := by
  obtain ⟨m, causes⟩ := c
  cases causes with
  | nil => exact nomatch next
  | cons k ks =>
    cases next
    rfl

theorem messages_under (c : Chain) (m : String) : (c.under m).messages = m :: c.messages := rfl

/-- What is shown in front of the message at a place of a chain. -/
def lead : Nat → String
  | 0 => ""
  | 1 => "\ncaused by:\n  - "
  | _ + 2 => "\n  - "

theorem lead_item (i : Nat) (m : String) : lead (i + 2) ++ m = item m := rfl

theorem mapIdx_lead_items (ks : List String) :
    ks.mapIdx (fun i m => lead (i + 2) ++ m) = ks.map item := by
  simp only [lead_item]
  exact List.ext_getElem (by simp) (by simp)

/-- A rendering is the messages in their order, each behind what its place asks for. -/
theorem render_eq_join (c : Chain) :
    c.render = String.join (c.messages.mapIdx fun i m => lead i ++ m) := by
  obtain ⟨m, causes⟩ := c
  cases causes with
  | nil => simp [render, messages, lead]
  | cons k ks =>
    have heading : "\ncaused by:" ++ item k = lead 1 ++ k := by
      rw [item, ← String.append_assoc]
      rfl
    calc render ⟨m, k :: ks⟩
      _ = m ++ "\ncaused by:" ++ String.join ((k :: ks).map item) := rfl
      _ = m ++ ((lead 1 ++ k) ++ String.join (ks.map item)) := by
        rw [List.map_cons, String.join_cons, ← heading]
        simp only [String.append_assoc]
      _ = String.join ((m :: k :: ks).mapIdx fun i m => lead i ++ m) := by
        simp only [List.mapIdx_cons, String.join_cons, Nat.zero_add, Nat.add_assoc,
          mapIdx_lead_items]
        rfl

theorem lines_items {causes : List String} (plain : Plain causes) (s : String) :
    lines (s ++ String.join (causes.map item)) = lines s ++ causes.map ("  - " ++ ·) := by
  induction causes generalizing s with
  | nil => simp
  | cons k ks ih =>
    have first : s ++ item k = s ++ "\n" ++ ("  - " ++ k) := by
      have mark : "\n  - " = "\n" ++ "  - " := rfl
      rw [item, mark]
      simp only [String.append_assoc]
    have alone : lines ("  - " ++ k) = ["  - " ++ k] := by
      apply lines_of_not_mem
      simpa using plain k List.mem_cons_self
    rw [List.map_cons, String.join_cons, ← String.append_assoc, first,
      ih fun m among => plain m (List.mem_cons_of_mem k among), lines_feed, alone,
      List.append_assoc]
    rfl

/-- The lines below the message of a failure with these causes. -/
def listing : List String → List String
  | [] => []
  | causes => "caused by:" :: causes.map ("  - " ++ ·)

theorem lines_render {c : Chain} (plain : Plain c.messages) :
    lines c.render = c.message :: listing c.causes := by
  obtain ⟨m, causes⟩ := c
  have own : lines m = [m] := lines_of_not_mem (plain m List.mem_cons_self)
  cases causes with
  | nil => exact own
  | cons k ks =>
    have below : Plain (k :: ks) := fun m among => plain m (List.mem_cons_of_mem _ among)
    have heading : "\ncaused by:" = "\n" ++ "caused by:" := rfl
    calc lines (render ⟨m, k :: ks⟩)
      _ = lines (m ++ "\n" ++ "caused by:" ++ String.join ((k :: ks).map item)) := by
        rw [render, heading, ← String.append_assoc]
      _ = lines m ++ lines "caused by:" ++ (k :: ks).map ("  - " ++ ·) := by
        rw [lines_items below, lines_feed]
      _ = m :: listing (k :: ks) := by
        rw [own]
        rfl

/-- The messages read off a text: its first line, and what the lines below the heading have behind
their marks. -/
def shown (text : String) : List String :=
  match lines text with
  | [] => []
  | own :: others => own :: (others.drop 1).map fun line => String.ofList (line.toList.drop 4)

theorem shown_render {c : Chain} (plain : Plain c.messages) : shown c.render = c.messages := by
  rw [shown, lines_render plain]
  obtain ⟨m, causes⟩ := c
  cases causes with
  | nil => rfl
  | cons k ks => simp [listing, messages, Function.comp_def]

/-- A failure with causes is not shown on one line, whatever its messages are. -/
theorem lineFeed_mem_render_under (c : Chain) (m : String) : '\n' ∈ (c.under m).render.toList := by
  simp [render, under]

end Chain

/-- What is shown with its causes: a fault, a failure of the library over a fault, or any other
failure, of which only the messages are known. -/
inductive Failure where
  | foreign (chain : Chain)
  | fault (fault : Fault)
  | resolve (failure : ResolveError)
  | write (failure : WriteError)
  | load (path : String) (cause : Fault)
  | read (failure : Stream.ReadError)
  deriving DecidableEq, Repr

namespace Failure

def chain : Failure → Chain
  | foreign c => c
  | fault f => f.chain
  | resolve e => e.chain
  | write e => e.chain
  | load path cause => (Document.LoadError.read path cause).chain
  | read e => e.chain

/-- The text of a failure itself. -/
def text (f : Failure) : String :=
  f.chain.message

/-- What a failure is directly due to. A fault that holds another failure has the text of it, so
what the fault is due to is what that failure is due to. -/
def source? : Failure → Option Failure
  | foreign c => c.source?.map foreign
  | fault f => f.chain.source?.map foreign
  | resolve (.currentDir cause) => some (fault cause)
  | resolve (.currentDirNotText _) => none
  | resolve (.readDir _ cause) => some (fault cause)
  | resolve (.createDir _ cause) => some (fault cause)
  | write (.resolve cause) => some (resolve cause)
  | write (.create _ cause) => some (fault cause)
  | write (.write _ cause) => some (fault cause)
  | load _ cause => some (fault cause)
  | read e => some (fault e.cause)

theorem chain_of_source?_eq_none {f : Failure} (last : f.source? = none) :
    f.chain = ⟨f.text, []⟩ := by
  cases f with
  | foreign c => exact Chain.eq_of_source?_eq_none (Option.map_eq_none_iff.mp last)
  | fault f => exact Chain.eq_of_source?_eq_none (Option.map_eq_none_iff.mp last)
  | resolve e =>
    cases e with
    | currentDirNotText path => rfl
    | _ => exact nomatch last
  | write e => cases e <;> exact nomatch last
  | load path cause => exact nomatch last
  | read e => exact nomatch last

theorem chain_of_source? {f g : Failure} (next : f.source? = some g) :
    f.chain = g.chain.under f.text := by
  have unrolled (h : Failure) (known : h.chain.source?.map foreign = some g) :
      h.chain = g.chain.under h.text := by
    obtain ⟨d, nearest, rfl⟩ := Option.map_eq_some_iff.mp known
    exact Chain.eq_under_of_source? nearest
  cases f with
  | foreign c => exact unrolled (foreign c) next
  | fault f => exact unrolled (fault f) next
  | resolve e =>
    cases e with
    | currentDirNotText path => exact nomatch next
    | _ => cases next; rfl
  | write e => cases e <;> cases next <;> rfl
  | load path cause => cases next; rfl
  | read e => cases next; rfl

theorem length_causes_lt {f g : Failure} (next : f.source? = some g) :
    g.chain.causes.length < f.chain.causes.length := by
  rw [chain_of_source? next]
  exact Nat.lt_succ_self _

/-- The texts on the way from a failure along the causes, until one has no cause. -/
def texts (f : Failure) : List String :=
  match _ : f.source? with
  | none => [f.text]
  | some g => f.text :: g.texts
termination_by f.chain.causes.length
decreasing_by exact length_causes_lt ‹_›

/-- The way along the causes meets the messages of the chain. -/
theorem texts_eq_messages (f : Failure) : f.texts = f.chain.messages := by
  fun_induction texts f with
  | case1 f last =>
    rw [chain_of_source?_eq_none last]
    rfl
  | case2 f g next ih => rw [ih, chain_of_source? next, Chain.messages_under]

theorem render_eq_join_texts (f : Failure) :
    f.chain.render = String.join (f.texts.mapIdx fun i m => Chain.lead i ++ m) := by
  rw [texts_eq_messages]
  exact f.chain.render_eq_join

theorem shown_render {f : Failure} (plain : Plain f.texts) :
    Chain.shown f.chain.render = f.texts := by
  rw [texts_eq_messages] at plain ⊢
  exact Chain.shown_render plain

/-- The texts of a failure and its causes are all that is shown, each once and in their order, the
failure's own first, with nothing else but the marks of their places. If none has a line feed, they
can be read off what is shown; so such failures are shown alike exactly if they have the same texts.
A failure without a cause and without a line feed is never shown as one with a cause. Any messages
can be those of a failure and its causes, and a fault that holds this failure adds none. -/
theorem render_determines_texts (f g : Failure) :
    f.chain.render = String.join (f.texts.mapIdx fun i m => Chain.lead i ++ m) ∧
      (Plain f.texts → Chain.shown f.chain.render = f.texts) ∧
      (Plain f.texts → Plain g.texts → (f.chain.render = g.chain.render ↔ f.texts = g.texts)) ∧
      (f.source? = none → '\n' ∉ f.text.toList → g.source? ≠ none →
        f.chain.render ≠ g.chain.render) ∧
      ∀ m causes, (foreign ⟨m, causes⟩).texts = m :: causes ∧
        (fault (.other m causes)).texts = m :: causes := by
  refine ⟨render_eq_join_texts f, shown_render, ?_, ?_, ?_⟩
  · intro plain plain'
    constructor
    · intro same
      rw [← shown_render plain, same, shown_render plain']
    · intro texts
      rw [render_eq_join_texts, render_eq_join_texts, texts]
  · intro last clean caused same
    obtain ⟨cause, next⟩ := Option.ne_none_iff_exists'.mp caused
    have alone : f.chain.render = f.text := by
      rw [chain_of_source?_eq_none last]
      rfl
    have feed : '\n' ∈ g.chain.render.toList := by
      rw [chain_of_source? next]
      exact Chain.lineFeed_mem_render_under _ _
    rw [← same, alone] at feed
    exact clean feed
  · intro m causes
    exact ⟨texts_eq_messages _, texts_eq_messages _⟩

/-- The output directory could not be made, for a reason with a reason of its own that has no text,
and below it one that looks like an item. -/
def unmade : Failure :=
  .write (.resolve (.createDir "out/ids" (.other "permission denied" ["", "  - read-only"])))

/-- The working directory is not text. -/
def unnamed : Failure :=
  .resolve (.currentDirNotText [0x2F, 0xFF])

theorem unmade_told_apart :
    Plain unmade.texts ∧ Plain unnamed.texts ∧
      unmade.texts = ["failed to resolve output file", "failed to create output directory out/ids",
        "permission denied", "", "  - read-only"] ∧
      Chain.shown unmade.chain.render = unmade.texts ∧
      (unmade.chain.render = unnamed.chain.render ↔ unmade.texts = unnamed.texts) ∧
      unnamed.chain.render ≠ unmade.chain.render := by
  have plain : Plain unmade.texts := by
    rw [texts_eq_messages]
    decide +kernel
  have plain' : Plain unnamed.texts := by
    rw [texts_eq_messages]
    decide +kernel
  obtain ⟨-, readBack, alike, -, -⟩ := render_determines_texts unmade unnamed
  obtain ⟨-, -, -, apart, -⟩ := render_determines_texts unnamed unmade
  refine ⟨plain, plain', ?_, readBack plain, alike plain plain', ?_⟩
  · rw [texts_eq_messages]
    rfl
  · exact apart rfl (by decide +kernel) nofun

/-- With line feeds in a text, it can be shown as causes that are not there. -/
example : (⟨"a\ncaused by:\n  - b", []⟩ : Chain).render = (⟨"a", ["b"]⟩ : Chain).render := rfl

end Failure

end RunLedger
