import RunLedger.Proofs.Stream.Continuation

set_option autoImplicit false

namespace RunLedger.Stream

/-- What stands between the id of a binary and the name of a test. -/
def separator : String := "]/[test:"

section Lists

variable {α : Type} {c : α} {tail : List α}

/-- A separator that begins with an element that does not come again, and has something in front of
it, is all of it behind another one that begins the list. -/
theorem separator_behind (once : c ∉ tail) {front rest rest' : List α} (filled : front ≠ [])
    (same : c :: tail ++ rest = front ++ (c :: tail ++ rest')) :
    ∃ m, front = c :: tail ++ m ∧ rest = m ++ (c :: tail) ++ rest' := by
  rcases List.append_eq_append_iff.mp same with ⟨m, longer, later⟩ | ⟨m, shorter, later⟩
  · refine ⟨m, longer, ?_⟩
    rw [later, List.append_assoc]
  · -- Here the second separator would begin within the first one.
    cases front with
    | nil => exact absurd rfl filled
    | cons d front =>
      obtain ⟨rfl, tails⟩ := List.cons.inj shorter
      cases m with
      | nil =>
        have whole : tail = front := tails.trans (List.append_nil front)
        have behind : c :: tail ++ rest' = rest := later
        refine ⟨[], ?_, ?_⟩
        · rw [whole, List.append_nil]
        · rw [List.nil_append, behind]
      | cons e m =>
        have first : c = e := (List.cons.inj later).1
        have again : c ∈ tail := by
          rw [tails, first]
          exact List.mem_append_right front List.mem_cons_self
        exact absurd again once

/-- Two lists around a separator, put together as two others: the parts are the same, or one of the
first parts has another separator in it, behind which it goes on in the other's second part. -/
theorem append_separator_eq_iff (once : c ∉ tail) (b n b' n' : List α) :
    b ++ (c :: tail) ++ n = b' ++ (c :: tail) ++ n' ↔
      (b = b' ∧ n = n') ∨
      (∃ m, b' = b ++ (c :: tail) ++ m ∧ n = m ++ (c :: tail) ++ n') ∨
      ∃ m, b = b' ++ (c :: tail) ++ m ∧ n' = m ++ (c :: tail) ++ n := by
  constructor
  · intro same
    rw [List.append_assoc, List.append_assoc] at same
    rcases List.append_eq_append_iff.mp same with ⟨x, longer, later⟩ | ⟨x, longer, later⟩
    · by_cases empty : x = []
      · rw [empty, List.append_nil] at longer
        rw [empty, List.nil_append] at later
        exact .inl ⟨longer.symm, List.append_cancel_left later⟩
      · obtain ⟨m, rfl, rest⟩ := separator_behind once empty later
        refine .inr (.inl ⟨m, ?_, rest⟩)
        rw [longer, List.append_assoc]
    · by_cases empty : x = []
      · rw [empty, List.append_nil] at longer
        rw [empty, List.nil_append] at later
        exact .inl ⟨longer, (List.append_cancel_left later).symm⟩
      · obtain ⟨m, rfl, rest⟩ := separator_behind once empty later
        refine .inr (.inr ⟨m, ?_, rest⟩)
        rw [longer, List.append_assoc]
  · rintro (⟨rfl, rfl⟩ | ⟨m, rfl, rfl⟩ | ⟨m, rfl, rfl⟩)
    · rfl
    · simp only [List.append_assoc]
    · simp only [List.append_assoc]

end Lists

theorem separated_eq_iff (b n b' n' : String) :
    b ++ separator ++ n = b' ++ separator ++ n' ↔
      (b = b' ∧ n = n') ∨
      (∃ m, b' = b ++ separator ++ m ∧ n = m ++ separator ++ n') ∨
      ∃ m, b = b' ++ separator ++ m ∧ n' = m ++ separator ++ n := by
  have spelled : separator.toList = ']' :: ['/', '[', 't', 'e', 's', 't', ':'] := by decide
  have once : ']' ∉ ['/', '[', 't', 'e', 's', 't', ':'] := by decide
  have lists := append_separator_eq_iff once b.toList n.toList b'.toList n'.toList
  rw [← spelled] at lists
  have texts (p : String → Prop) : (∃ m, p m) ↔ ∃ cs : List Char, p (String.ofList cs) := by
    constructor
    · rintro ⟨m, holds⟩
      exact ⟨m.toList, by rwa [String.ofList_toList]⟩
    · rintro ⟨cs, holds⟩
      exact ⟨_, holds⟩
  rw [texts fun m => b' = b ++ separator ++ m ∧ n = m ++ separator ++ n',
    texts fun m => b = b' ++ separator ++ m ∧ n' = m ++ separator ++ n]
  simp only [← String.toList_inj, String.toList_append, String.toList_ofList]
  exact lists

theorem uniqueId_some (b n : String) :
    uniqueId (some b) n = "[binary:" ++ (b ++ separator ++ n) ++ "]" := by
  simp only [uniqueId, separator, String.append_assoc]

theorem around_inj {front back : String} {s t : String} :
    front ++ s ++ back = front ++ t ++ back ↔ s = t := by
  simp only [← String.toList_inj, String.toList_append, List.append_cancel_right_eq,
    List.append_cancel_left_eq]

theorem uniqueId_some_ne_none (b n n' : String) : uniqueId (some b) n ≠ uniqueId none n' := by
  intro same
  have second := congrArg (fun id : String => id.toList[1]?) same
  simp [uniqueId] at second

/-- The separator occurs in a text. -/
def HasSeparator (s : String) : Prop :=
  ∃ front back, s = front ++ separator ++ back

/-- An id without a binary is never one with a binary, and tells the name. With binaries the ids of
`(b, n)` and `(b', n')` are the same exactly if these are, or if the id of one binary begins with
that of the other one and a separator, and what follows in it begins the other's name in front of a
separator and the name. So readers for different binaries, with no separator in their ids, never
give two tests the same id, whatever streams they read. -/
theorem uniqueId_eq_iff_separated :
    (∀ b n n', uniqueId (some b) n ≠ uniqueId none n') ∧
      (∀ n n', uniqueId none n = uniqueId none n' ↔ n = n') ∧
      (∀ b n b' n', uniqueId (some b) n = uniqueId (some b') n' ↔
        (b, n) = (b', n') ∨
        (∃ m, b' = b ++ separator ++ m ∧ n = m ++ separator ++ n') ∨
        ∃ m, b = b' ++ separator ++ m ∧ n' = m ++ separator ++ n) ∧
      ∀ r r' : Reader, r.binaryId ≠ r'.binaryId →
        (∀ b, r.binaryId = some b ∨ r'.binaryId = some b → ¬ HasSeparator b) →
        (∀ n n', uniqueId r.binaryId n ≠ uniqueId r'.binaryId n') ∧
          ∀ s s' : Source, ∀ c ∈ (r.read s).cases, ∀ c' ∈ (r'.read s').cases,
            c.1.uniqueId ≠ c'.1.uniqueId := by
  have collide (b n b' n' : String) : uniqueId (some b) n = uniqueId (some b') n' ↔
      (b, n) = (b', n') ∨
      (∃ m, b' = b ++ separator ++ m ∧ n = m ++ separator ++ n') ∨
      ∃ m, b = b' ++ separator ++ m ∧ n' = m ++ separator ++ n := by
    rw [uniqueId_some, uniqueId_some, around_inj, separated_eq_iff, Prod.mk.injEq]
  refine ⟨uniqueId_some_ne_none, fun n n' => around_inj, collide, ?_⟩
  intro r r' different free
  have apart (n n' : String) : uniqueId r.binaryId n ≠ uniqueId r'.binaryId n' := by
    intro same
    cases one : r.binaryId with
    | none =>
      cases other : r'.binaryId with
      | none => exact different (one.trans other.symm)
      | some b' =>
        rw [one, other] at same
        exact uniqueId_some_ne_none b' n' n same.symm
    | some b =>
      cases other : r'.binaryId with
      | none =>
        rw [one, other] at same
        exact uniqueId_some_ne_none b n n' same
      | some b' =>
        rw [one, other, collide] at same
        rcases same with equal | ⟨m, inside, -⟩ | ⟨m, inside, -⟩
        · have binaries : b = b' := (Prod.mk.inj equal).1
          exact different (by rw [one, other, binaries])
        · exact free b' (.inr other) ⟨b, m, inside⟩
        · exact free b (.inl one) ⟨b', m, inside⟩
  refine ⟨apart, ?_⟩
  intro s s' c among c' among'
  rw [cases_read, List.mem_map] at among among'
  obtain ⟨test, -, rfl⟩ := among
  obtain ⟨test', -, rfl⟩ := among'
  exact apart test.1 test'.1

/-- A separator in the id of a binary, or in the name of a test, can be taken for the one
between. -/
example : uniqueId (some "core") "a]/[test:b" = uniqueId (some "core]/[test:a") "b" := by decide

end RunLedger.Stream
