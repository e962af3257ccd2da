set_option autoImplicit false

namespace RunLedger

abbrev Entries (β : Type) := List (String × β)

namespace Entries

variable {β : Type}

/-- Strict order of keys: a list in this order repeats no key. -/
def Ordered (l : Entries β) : Prop :=
  l.Pairwise fun a b => a.1 < b.1

def get? : Entries β → String → Option β
  | [], _ => none
  | (k', x) :: l, k => if k = k' then some x else get? l k

def insert (k : String) (x : β) : Entries β → Entries β
  | [] => [(k, x)]
  | (k', x') :: r =>
    if k < k' then (k, x) :: (k', x') :: r
    else if k = k' then (k, x) :: r
    else (k', x') :: insert k x r

/-- Inserts the pairs one after the other, so that the last one with a key stays. -/
def ofPairs (ps : List (String × β)) : Entries β :=
  ps.foldl (fun l p => insert p.1 p.2 l) []

@[simp] theorem get?_nil (k : String) : get? ([] : Entries β) k = none := rfl

theorem get?_cons (k k' : String) (x : β) (l : Entries β) :
    get? ((k', x) :: l) k = if k = k' then some x else get? l k := rfl

theorem get?_insert (k k' : String) (x : β) (l : Entries β) :
    get? (insert k x l) k' = if k' = k then some x else get? l k' := by
  induction l with
  | nil => simp [insert, get?_cons]
  | cons e l ih =>
    obtain ⟨k'', x''⟩ := e
    rw [insert]
    split
    · rw [get?_cons]
    · split
      · next h =>
        subst h
        rw [get?_cons, get?_cons]
        split <;> simp_all
      · next h =>
        rw [get?_cons, get?_cons, ih]
        split
        · next h' => subst h'; simp [Ne.symm h]
        · rfl

theorem mem_insert {k : String} {x : β} {l : Entries β} {e : String × β}
    (h : e ∈ insert k x l) : e = (k, x) ∨ e ∈ l := by
  induction l with
  | nil => simpa [insert] using h
  | cons e' l ih =>
    obtain ⟨k', x'⟩ := e'
    rw [insert] at h
    split at h
    · exact List.mem_cons.mp h
    · split at h
      · rcases List.mem_cons.mp h with h | h
        · exact .inl h
        · exact .inr (List.mem_cons_of_mem _ h)
      · rcases List.mem_cons.mp h with h | h
        · exact .inr (h ▸ List.mem_cons_self)
        · exact (ih h).imp_right (List.mem_cons_of_mem _)

theorem ordered_nil : Ordered ([] : Entries β) := List.Pairwise.nil

theorem Ordered.insert {l : Entries β} (k : String) (x : β) (h : Ordered l) :
    Ordered (Entries.insert k x l) := by
  induction l with
  | nil => exact List.pairwise_singleton _ _
  | cons e l ih =>
    obtain ⟨k', x'⟩ := e
    obtain ⟨hk, hl⟩ := List.pairwise_cons.mp h
    rw [Entries.insert]
    split
    · next hlt =>
      refine List.pairwise_cons.mpr ⟨fun a ha => ?_, h⟩
      rcases List.mem_cons.mp ha with rfl | ha
      · exact hlt
      · exact String.lt_trans hlt (hk a ha)
    · split
      · next heq => subst heq; exact List.pairwise_cons.mpr ⟨hk, hl⟩
      · next hnlt hne =>
        refine List.pairwise_cons.mpr ⟨fun a ha => ?_, ih hl⟩
        rcases mem_insert ha with rfl | ha
        · rcases Classical.em (k' < k) with hlt | hge
          · exact hlt
          · exact absurd (String.le_antisymm hge hnlt) (by exact hne)
        · exact hk a ha

theorem ordered_ofPairs (ps : List (String × β)) : Ordered (ofPairs ps) := by
  suffices h : ∀ l : Entries β, Ordered l →
      Ordered (ps.foldl (fun l p => Entries.insert p.1 p.2 l) l) from h [] ordered_nil
  induction ps with
  | nil => exact fun _ h => h
  | cons p ps ih => exact fun l h => ih _ (h.insert p.1 p.2)

end Entries

end RunLedger
