import Mathlib.Data.List.DropRight
import RunLedger.Proofs.Recorder.Run

set_option autoImplicit false

namespace RunLedger

open File

namespace Hook

/-- The parameters that a run starts with. -/
def start? : Hook → Option Parameters
  | .runStarted p => some p
  | .caseFinished _ _ | .runFinished _ => none

def case? : Hook → Option (Identifier × Outcome)
  | .caseFinished i o => some (i, o)
  | .runStarted _ | .runFinished _ => none

end Hook

/-- The parameters of the latest start of a run. -/
def latestStart? (hooks : List Hook) : Option Parameters :=
  hooks.reverse.findSome? Hook.start?

/-- The cases behind the latest announcement that a run starts or finishes. -/
def casesSince (hooks : List Hook) : List (Identifier × Outcome) :=
  (hooks.rtakeWhile (·.case?.isSome)).filterMap Hook.case?

theorem latestStart?_concat (hooks : List Hook) (h : Hook) :
    latestStart? (hooks ++ [h]) = h.start?.or (latestStart? hooks) := by
  rw [latestStart?, List.reverse_concat, List.findSome?_cons]
  cases h.start? <;> rfl

theorem casesSince_concat (hooks : List Hook) (h : Hook) :
    casesSince (hooks ++ [h]) = h.case?.elim [] fun c => casesSince hooks ++ [c] := by
  rw [casesSince, List.rtakeWhile_concat]
  cases said : h.case? with
  | none => rfl
  | some c => simp [casesSince, said]

theorem recordedIds_concat (cases : List (Identifier × Outcome)) (i : Identifier) (o : Outcome) :
    recordedIds (cases ++ [(i, o)]) =
      if i.isTest then recordedIds cases ++ [i.uniqueId] else recordedIds cases := by
  have last : recordedIds (cases ++ [(i, o)]) = recordedIds cases ++ recordedIds [(i, o)] := by
    simp only [recordedIds, List.filter_append, List.map_append]
  rw [last, recordedIds_cons]
  split
  · rfl
  · exact List.append_nil _

namespace Recorder

/-- What an announcement leaves of a recorder, whatever the files are. -/
def after (r : Recorder) : Hook → Recorder
  | .runStarted p =>
    { r with enabled := (p.getFlag Parameters.enabledKey).value.getD false, latest := [] }
  | .caseFinished i _ => r.finishCase i
  | .runFinished _ => { r with latest := if r.enabled then [] else r.latest }

theorem enabled_finishCase (r : Recorder) (i : Identifier) :
    (r.finishCase i).enabled = r.enabled := by
  unfold finishCase
  split <;> rfl

theorem value_notify (r : Recorder) (t : Tree) (h : Hook) :
    (r.notify t h).value.1 = r.after h := by
  cases h with
  | runStarted p => rfl
  | caseFinished i o => rfl
  | runFinished p =>
    change (r.finish t p).value.1 = { r with latest := if r.enabled then [] else r.latest }
    by_cases on : r.enabled = true
    · rw [r.value_finish t p on, if_pos on]
    · rw [finish, if_neg on, if_neg on]
      rfl

theorem value_notifyAll (r : Recorder) (t : Tree) (hooks : List Hook) :
    (r.notifyAll t hooks).value.1 = hooks.foldl after r := by
  induction hooks generalizing r t with
  | nil => rfl
  | cons h rest ih =>
    rw [notifyAll, Logged.value_bind]
    exact (ih _ _).trans (by rw [value_notify, List.foldl_cons])

/-- What a recorder is like after the announcements of its whole history. -/
structure Reflects (hooks : List Hook) (r : Recorder) : Prop where
  enabled : r.enabled = true ↔ ∃ p, latestStart? hooks = some p ∧
    (p.getFlag Parameters.enabledKey).value = some true
  ids : r.ids = if r.enabled then recordedIds (casesSince hooks) else []

theorem reflects_new (workingDir : Option String) : Reflects [] (new workingDir) := by
  constructor
  · simp [new, latestStart?]
  · rfl

/-- One more announcement keeps a recorder in line with its history. -/
theorem Reflects.after {hooks : List Hook} {r : Recorder} (reflects : Reflects hooks r) (h : Hook) :
    Reflects (hooks ++ [h]) (r.after h) := by
  obtain ⟨enabled, ids⟩ := reflects
  cases h with
  | runStarted p =>
    constructor
    · rw [latestStart?_concat]
      cases flag : (p.getFlag Parameters.enabledKey).value <;>
        simp [Recorder.after, Hook.start?, flag]
    · rw [casesSince_concat]
      simp [Recorder.after, Recorder.ids, Hook.case?, recordedIds]
  | caseFinished i o =>
    constructor
    · rw [latestStart?_concat, Recorder.after, enabled_finishCase]
      exact enabled
    · rw [casesSince_concat, Recorder.after, enabled_finishCase, ids_finishCase, ids]
      change _ = if r.enabled then recordedIds (casesSince hooks ++ [(i, o)]) else []
      rw [recordedIds_concat]
      cases r.enabled <;> simp
  | runFinished p =>
    constructor
    · rw [latestStart?_concat]
      exact enabled
    · rw [casesSince_concat]
      change (if r.enabled then [] else r.latest).reverse =
        if r.enabled then recordedIds [] else []
      by_cases on : r.enabled = true
      · rw [if_pos on, if_pos on]
        rfl
      · rw [if_neg on, if_neg on]
        rw [if_neg on] at ids
        exact ids

/-- The induction is on the history from its end, since each announcement adds to what was there. -/
theorem reflects_foldl (workingDir : Option String) (hooks : List Hook) :
    Reflects hooks (hooks.foldl after (new workingDir)) := by
  induction hooks using List.reverseRecOn with
  | nil => exact reflects_new workingDir
  | append_singleton hooks h ih =>
    rw [List.foldl_concat]
    exact ih.after h

/-- Only the finish of a run that the recorder is on for can change the files. -/
theorem files_notify {r : Recorder} {h : Hook}
    (idle : ¬ ((∃ p, h = .runFinished p) ∧ r.enabled = true))
    (t : Tree) : (r.notify t h).value.2 = t := by
  cases h with
  | runStarted p => rfl
  | caseFinished i o => rfl
  | runFinished p =>
    have off : ¬ r.enabled = true := fun on => idle ⟨⟨p, rfl⟩, on⟩
    change (r.finish t p).value.2 = t
    rw [finish, if_neg off]
    rfl

theorem enabled_start_of_unset (r : Recorder) {p : Parameters}
    (unset : (p.getFlag Parameters.enabledKey).value ≠ some true) :
    (r.start p).value.enabled = false := by
  rw [value_start]
  cases flag : (p.getFlag Parameters.enabledKey).value with
  | none => rfl
  | some b =>
    cases b with
    | true => exact absurd flag unset
    | false => rfl

/-- A recorder that is off takes no notice of anything until the next run starts. -/
theorem notifyAll_off {r : Recorder} (off : r.enabled = false) {hooks : List Hook}
    (noStart : ∀ p, Hook.runStarted p ∉ hooks) (t : Tree) :
    (r.notifyAll t hooks).value = (r, t) := by
  induction hooks with
  | nil => rfl
  | cons h rest ih =>
    have stays : (r.notify t h).value = (r, t) := by
      cases h with
      | runStarted p => exact absurd List.mem_cons_self (noStart p)
      | caseFinished i o => simp [notify, finishCase, off]
      | runFinished p => simp [notify, finish, off]
    rw [notifyAll, Logged.value_bind, stays]
    exact ih fun p later => noStart p (List.mem_cons_of_mem h later)

/-- An announcement, with the files as it finds them. -/
structure Call where
  hook : Hook
  files : Tree

/-- The recorder after some calls. -/
def afterCalls (r : Recorder) (calls : List Call) : Recorder :=
  calls.foldl (fun r c => (r.notify c.files c.hook).value.1) r

theorem afterCalls_eq (r : Recorder) (calls : List Call) :
    r.afterCalls calls = (calls.map (·.hook)).foldl after r := by
  rw [afterCalls, List.foldl_map]
  simp only [value_notify]

/-- After any calls, a recorder that was new is on exactly if the latest start of a run had
parameters that enable it. It has no ids if it is off, and otherwise those of the tests announced
since a run last started or finished, in their order. What the files were like at each call is of no
account. The next call changes the files only if it finishes a run that the recorder is on for; so
after a start that does not enable it, no file is touched before another start. -/
theorem state_of_history (workingDir : Option String) (calls : List Call) :
    let r := (new workingDir).afterCalls calls
    let hooks := calls.map (·.hook)
    (r.enabled = true ↔ ∃ p, latestStart? hooks = some p ∧
        (p.getFlag Parameters.enabledKey).value = some true) ∧
      (r.enabled = false → r.ids = []) ∧
      (r.enabled = true → r.ids = recordedIds (casesSince hooks)) ∧
      (∀ t, ((new workingDir).notifyAll t hooks).value.1 = r) ∧
      (∀ t h, (r.notify t h).value.2 ≠ t → (∃ p, h = .runFinished p) ∧ r.enabled = true) ∧
      ∀ t p later, (p.getFlag Parameters.enabledKey).value ≠ some true →
        (∀ q, Hook.runStarted q ∉ later) →
          (r.notifyAll t (.runStarted p :: later)).value.2 = t := by
  intro r hooks
  have reflects : Reflects hooks r := by
    rw [show r = hooks.foldl after (new workingDir) from afterCalls_eq _ calls]
    exact reflects_foldl workingDir hooks
  refine ⟨reflects.enabled, ?_, ?_, ?_, ?_, ?_⟩
  · intro off
    rw [reflects.ids, if_neg (by simp [off])]
  · intro on
    rw [reflects.ids, if_pos on]
  · intro t
    rw [value_notifyAll]
    exact (afterCalls_eq _ calls).symm
  · intro t h changed
    by_contra idle
    exact changed (files_notify idle t)
  · intro t p later unset noStart
    rw [notifyAll, Logged.value_bind]
    exact congrArg Prod.snd (notifyAll_off (enabled_start_of_unset r unset) noStart t)

end Recorder

end RunLedger
