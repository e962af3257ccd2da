import RunLedger.Proofs.File.Parent

set_option autoImplicit false

namespace RunLedger.File.Path

open Text

/-- An absolute path that only stays in place. -/
def Stays (p : Path) : Prop :=
  p.absolute = true ∧ ∀ step ∈ p.steps, step.stays = true

theorem Stays.textSteps_eq_nil {p : Path} (stays : p.Stays) : p.textSteps = [] := by
  obtain ⟨absolute, steps⟩ := p
  obtain ⟨rfl, still⟩ := stays
  simp only [textSteps, List.filter_eq_nil_iff]
  intro step among
  cases step with
  | here | slash => decide
  | up | name n => cases still _ among

theorem exists_mem_segments {bs : Bytes} {b : UInt8} (among : b ∈ bs) (other : b ≠ separator) :
    ∃ segment ∈ segments bs, b ∈ segment := by
  induction bs with
  | nil => cases among
  | cons c bs ih =>
    rw [segments]
    split
    · rename_i slash
      have later : b ∈ bs := by
        rcases List.mem_cons.mp among with here | later
        · exact absurd (here.trans slash) other
        · exact later
      obtain ⟨segment, inside, found⟩ := ih later
      exact ⟨segment, List.mem_cons_of_mem _ inside, found⟩
    · split
      · rename_i nothing
        exact absurd nothing (segments_ne_nil bs)
      · rename_i s ss parts
        rcases List.mem_cons.mp among with rfl | later
        · exact ⟨_, List.mem_cons_self, List.mem_cons_self⟩
        · obtain ⟨segment, inside, found⟩ := ih later
          rw [parts] at inside
          rcases List.mem_cons.mp inside with rfl | inside
          · exact ⟨_, List.mem_cons_self, List.mem_cons_of_mem _ found⟩
          · exact ⟨segment, List.mem_cons_of_mem _ inside, found⟩

/-- A part with a NUL in it is a name, so a path that only stays in place has none. -/
theorem Stays.nul_not_mem {bs : Bytes} (stays : (ofBytes bs).Stays) : 0 ∉ bs := by
  intro nul
  obtain ⟨segment, inside, found⟩ := exists_mem_segments nul (by decide)
  have named : step? segment = some (.name segment) := by
    rw [step?, if_neg, if_neg, if_neg] <;> rintro rfl <;> revert found <;> decide
  have among : .name segment ∈ (ofBytes bs).steps :=
    List.mem_append_left _ (List.mem_filterMap.mpr ⟨segment, inside, named⟩)
  cases stays.2 _ among

theorem exists_segments_cons {b : UInt8} (other : b ≠ separator) (bs : Bytes) :
    ∃ s ss, segments (b :: bs) = (b :: s) :: ss := by
  rw [segments, if_neg other]
  cases parts : segments bs with
  | nil => exact absurd parts (segments_ne_nil bs)
  | cons s ss => exact ⟨s, ss, rfl⟩

theorem textSteps_ne_nil_of_relative {b : UInt8} (other : b ≠ separator) (bs : Bytes) :
    (ofBytes (b :: bs)).textSteps ≠ [] := by
  obtain ⟨s, ss, parts⟩ := exists_segments_cons other bs
  have relative : decide ((b :: bs).head? = some separator) = false := by simpa using other
  have first : ∃ step, step? (b :: s) = some step ∧ step ≠ .slash := by
    unfold step?
    split
    · contradiction
    · split
      · exact ⟨.here, rfl, by decide⟩
      · split
        · exact ⟨.up, rfl, by decide⟩
        · exact ⟨.name _, rfl, by simp⟩
  obtain ⟨step, first, counts⟩ := first
  rw [ofBytes, relative, parts, List.filterMap_cons_some first]
  cases step <;> simp_all [textSteps]

/-- A path with no step that counts is empty or only stays in place. -/
theorem stays_of_textSteps_eq_nil {bs : Bytes} (filled : bs ≠ [])
    (nowhere : (ofBytes bs).textSteps = []) : (ofBytes bs).Stays := by
  cases bs with
  | nil => exact absurd rfl filled
  | cons b bs =>
    by_cases slash : b = separator
    · have absolute : (ofBytes (b :: bs)).absolute = true := by simp [ofBytes, slash]
      refine ⟨absolute, ?_⟩
      rw [textSteps, absolute] at nowhere
      intro step among
      have passed := List.filter_eq_nil_iff.mp nowhere step among
      cases step with
      | here | slash => rfl
      | up | name n => exact absurd rfl passed
    · exact absurd nowhere (textSteps_ne_nil_of_relative slash bs)

end RunLedger.File.Path
