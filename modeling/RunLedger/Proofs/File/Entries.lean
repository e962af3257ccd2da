import RunLedger.File.Tree

set_option autoImplicit false

namespace RunLedger.File

namespace Trie

variable {α : Type}

/-- The entries right inside a map, without those that have only something below them. -/
def entries (t : Trie α) : List (Name × α) :=
  t.inside.filterMap fun (name, c) => c.value.map (name, ·)

theorem mem_entries {t : Trie α} {e : Name × α} :
    e ∈ t.entries ↔ ∃ c, (e.1, c) ∈ t.inside ∧ c.value = some e.2 := by
  unfold entries
  rw [List.mem_filterMap]
  constructor
  · rintro ⟨⟨name, c⟩, inside, valued⟩
    obtain ⟨a, found, rfl⟩ := Option.map_eq_some_iff.mp valued
    exact ⟨c, inside, found⟩
  · rintro ⟨c, inside, found⟩
    exact ⟨(e.1, c), inside, Option.map_eq_some_iff.mpr ⟨e.2, found, rfl⟩⟩

theorem mem_putChild_self (k : Name) (c : Trie α) (b : List (Name × Trie α)) :
    (k, c) ∈ putChild k c b := by
  induction b with
  | nil => exact List.mem_singleton_self _
  | cons e b ih =>
    obtain ⟨m, d⟩ := e
    by_cases same : k = m
    · simp [putChild, same]
    · simp [putChild, same, ih]

theorem mem_putChild {k : Name} {b : List (Name × Trie α)} {e : Name × Trie α} (old : e ∈ b)
    (c : Trie α) : e ∈ putChild k c b ∨ e = (k, child b k) := by
  induction b with
  | nil => cases old
  | cons first b ih =>
    obtain ⟨m, d⟩ := first
    by_cases same : k = m
    · subst same
      rcases List.mem_cons.mp old with rfl | later
      · exact .inr (by simp [child])
      · exact .inl (by simp [putChild, later])
    · rcases List.mem_cons.mp old with rfl | later
      · exact .inl (by simp [putChild, same])
      · rcases ih later with kept | replaced
        · exact .inl (by simp [putChild, same, kept])
        · exact .inr (by simpa [child, same] using replaced)

theorem value_insert (ks : List Name) (a : α) (t : Trie α) :
    (t.insert ks a).value = if ks = [] then some a else t.value := by
  cases ks <;> rfl

theorem mem_entries_insert {t : Trie α} {m : List Name} {e : Name × α}
    (old : e ∈ (t.descend m).entries) (ks : List Name) (a : α) :
    e ∈ ((t.insert ks a).descend m).entries ∨
      (t.get? ks = some e.2 ∧ (e.1, a) ∈ ((t.insert ks a).descend m).entries) := by
  induction m generalizing t ks with
  | nil =>
    cases ks with
    | nil => exact .inl old
    | cons k ks =>
      obtain ⟨c, inside, found⟩ := mem_entries.mp old
      rcases mem_putChild inside (insert ks a (child t.inside k)) with kept | replaced
      · exact .inl (mem_entries.mpr ⟨c, kept, found⟩)
      · cases replaced
        have put := mem_putChild_self e.1 (insert ks a (child t.inside e.1)) t.inside
        by_cases last : ks = []
        · subst last
          exact .inr ⟨found, mem_entries.mpr ⟨_, put, rfl⟩⟩
        · refine .inl (mem_entries.mpr ⟨_, put, ?_⟩)
          rw [value_insert, if_neg last]
          exact found
  | cons x m ih =>
    cases ks with
    | nil => exact .inl old
    | cons k ks =>
      change e ∈ ((child (putChild k _ t.inside) x).descend m).entries ∨
        (_ ∧ (e.1, a) ∈ ((child (putChild k _ t.inside) x).descend m).entries)
      rw [child_putChild, get?_cons]
      by_cases same : x = k
      · subst same
        rw [if_pos rfl]
        exact ih old ks
      · rw [if_neg same]
        exact .inl old

theorem mem_of_value_child {b : List (Name × Trie α)} {k : Name} {a : α}
    (valued : (child b k).value = some a) : (k, child b k) ∈ b := by
  induction b with
  | nil => cases valued
  | cons first b ih =>
    obtain ⟨m, c⟩ := first
    by_cases same : k = m
    · subst same
      simp [child]
    · rw [child, if_neg same] at valued ⊢
      exact List.mem_cons_of_mem _ (ih valued)

theorem mem_entries_of_get? {t : Trie α} {m : List Name} {k : Name} {a : α}
    (found : t.get? (m ++ [k]) = some a) : (k, a) ∈ (t.descend m).entries := by
  rw [get?, descend_concat] at found
  exact mem_entries.mpr ⟨_, mem_of_value_child found, found⟩

theorem mem_of_mem_putChild {k : Name} {c : Trie α} {b : List (Name × Trie α)}
    {e : Name × Trie α} (new : e ∈ putChild k c b) : e ∈ b ∨ e = (k, c) := by
  induction b with
  | nil => exact .inr (List.mem_singleton.mp new)
  | cons first b ih =>
    obtain ⟨m, d⟩ := first
    by_cases same : k = m
    · rw [putChild, if_pos same, List.mem_cons] at new
      rcases new with put | old
      · exact .inr put
      · exact .inl (List.mem_cons_of_mem _ old)
    · rw [putChild, if_neg same, List.mem_cons] at new
      rcases new with first | later
      · exact .inl (List.mem_cons.mpr (.inl first))
      · rcases ih later with old | put
        · exact .inl (List.mem_cons_of_mem _ old)
        · exact .inr put

/-- An entry after an insertion was there before, or is what was inserted. -/
theorem mem_entries_of_insert {t : Trie α} {m ks : List Name} {a : α} {e : Name × α}
    (new : e ∈ ((t.insert ks a).descend m).entries) :
    e ∈ (t.descend m).entries ∨ (ks = m ++ [e.1] ∧ e.2 = a) := by
  induction m generalizing t ks with
  | nil =>
    cases ks with
    | nil => exact .inl new
    | cons k ks =>
      obtain ⟨c, inside, valued⟩ := mem_entries.mp new
      rcases mem_of_mem_putChild inside with old | put
      · exact .inl (mem_entries.mpr ⟨c, old, valued⟩)
      · obtain ⟨rfl, rfl⟩ := Prod.mk.inj put
        rw [value_insert] at valued
        by_cases last : ks = []
        · rw [if_pos last] at valued
          exact .inr ⟨by rw [last]; rfl, (Option.some.inj valued).symm⟩
        · rw [if_neg last] at valued
          exact .inl (mem_entries.mpr ⟨_, mem_of_value_child valued, valued⟩)
  | cons x m ih =>
    cases ks with
    | nil => exact .inl new
    | cons k ks =>
      change e ∈ ((child (putChild k _ t.inside) x).descend m).entries at new
      rw [child_putChild] at new
      by_cases same : x = k
      · subst same
        rw [if_pos rfl] at new
        rcases ih new with old | ⟨rfl, inserted⟩
        · exact .inl old
        · exact .inr ⟨rfl, inserted⟩
      · rw [if_neg same] at new
        exact .inl new

/-- A map with a value that is put below a name without one adds one entry among the others. -/
theorem entries_putChild_vacant {b : List (Name × Trie α)} {k : Name} {c : Trie α} {a : α}
    (nothing : (child b k).value = none) (valued : c.value = some a) (v v' : Option α) :
    ∃ before behind, (branch v b).entries = before ++ behind ∧
      (branch v' (putChild k c b)).entries = before ++ (k, a) :: behind := by
  simp only [entries, inside]
  induction b with
  | nil => exact ⟨[], [], rfl, by simp [putChild, valued]⟩
  | cons first b ih =>
    obtain ⟨m, d⟩ := first
    by_cases same : k = m
    · rw [child, if_pos same] at nothing
      refine ⟨[], _, rfl, ?_⟩
      rw [putChild, if_pos same]
      simp [valued, nothing]
    · rw [child, if_neg same] at nothing
      obtain ⟨before, behind, split, put⟩ := ih nothing
      refine ⟨(d.value.map (m, ·)).toList ++ before, behind, ?_, ?_⟩
      · rw [List.append_assoc, ← split]
        cases value : d.value <;> simp [value]
      · rw [putChild, if_neg same, List.append_assoc, ← put]
        cases value : d.value <;> simp [value]

theorem entries_putChild_same {b : List (Name × Trie α)} {k : Name} {c : Trie α}
    (same : c.value = (child b k).value) (v v' : Option α) :
    (branch v' (putChild k c b)).entries = (branch v b).entries := by
  simp only [entries, inside]
  induction b with
  | nil =>
    have nothing : c.value = none := same
    simp [putChild, nothing]
  | cons first b ih =>
    obtain ⟨m, d⟩ := first
    by_cases here : k = m
    · rw [child, if_pos here] at same
      rw [putChild, if_pos here, List.filterMap_cons, List.filterMap_cons, same, here]
    · rw [child, if_neg here] at same
      rw [putChild, if_neg here, List.filterMap_cons, List.filterMap_cons, ih same]

theorem entries_insert_aside {t : Trie α} {m ks : List Name} (aside : ∀ k, ks ≠ m ++ [k]) (a : α) :
    ((t.insert ks a).descend m).entries = (t.descend m).entries := by
  induction m generalizing t ks with
  | nil =>
    cases ks with
    | nil => rfl
    | cons k ks =>
      have further : ks ≠ [] := fun last => aside k (by rw [last]; rfl)
      refine entries_putChild_same (v := t.value) ?_ t.value
      rw [value_insert, if_neg further]
  | cons x m ih =>
    cases ks with
    | nil => rfl
    | cons k ks =>
      change ((child (putChild k _ t.inside) x).descend m).entries = _
      rw [child_putChild]
      by_cases same : x = k
      · subst same
        rw [if_pos rfl]
        exact ih fun k' last => aside k' (by rw [last]; rfl)
      · rw [if_neg same]
        rfl

/-- An insertion where nothing was adds one entry among the others. -/
theorem entries_insert_vacant {t : Trie α} {m : List Name} {k : Name}
    (nothing : t.get? (m ++ [k]) = none) (a : α) :
    ∃ before behind, (t.descend m).entries = before ++ behind ∧
      ((t.insert (m ++ [k]) a).descend m).entries = before ++ (k, a) :: behind := by
  induction m generalizing t with
  | nil => exact entries_putChild_vacant nothing rfl t.value t.value
  | cons x m ih =>
    change ∃ before behind, _ ∧ ((child (putChild x _ t.inside) x).descend m).entries = _
    rw [child_putChild, if_pos rfl]
    exact ih nothing

end Trie

namespace Tree

theorem listing_eq (t : Tree) (p : Place) :
    t.listing p = if p.removed = 0 then (t.part p.live).entries else [] := rfl

theorem mem_listing_of_set {t : Tree} {l : Location} {n : Node} {p : Place} {e : Name × Node}
    (listed : e ∈ (t.set l n).listing p) :
    e ∈ t.listing p ∨ (p.removed = 0 ∧ l = e.1 :: p.live ∧ e.2 = n) := by
  rw [listing_eq] at listed ⊢
  by_cases live : p.removed = 0
  · rw [if_pos live] at listed ⊢
    rcases Trie.mem_entries_of_insert listed with old | ⟨path, put⟩
    · exact .inl old
    · refine .inr ⟨live, ?_, put⟩
      rw [← List.reverse_inj, path, List.reverse_cons]
  · rw [if_neg live] at listed
    cases listed

/-- A node that is put where nothing was is listed among the old entries of its directory, which
keep their order. -/
theorem listing_set_vacant {t : Tree} {p : Place} {name : Name} (live : p.removed = 0)
    (nothing : t.node? (name :: p.live) = none) (n : Node) :
    ∃ before behind, t.listing p = before ++ behind ∧
      (t.set (name :: p.live) n).listing p = before ++ (name, n) :: behind := by
  rw [listing_eq, if_pos live, listing_eq, if_pos live, part, part, set, List.reverse_cons]
  rw [node?, if_neg (List.cons_ne_nil _ _), List.reverse_cons] at nothing
  exact Trie.entries_insert_vacant nothing n

theorem listing_sublist_set {t : Tree} {l : Location} (nothing : t.node? l = none) (n : Node)
    (p : Place) : (t.listing p).Sublist ((t.set l n).listing p) := by
  by_cases live : p.removed = 0
  · by_cases inside : ∃ name, l = name :: p.live
    · obtain ⟨name, rfl⟩ := inside
      obtain ⟨before, behind, old, new⟩ := listing_set_vacant live nothing n
      rw [old, new]
      exact (List.Sublist.refl before).append (List.sublist_cons_self _ _)
    · have aside (name : Name) : l.reverse ≠ p.live.reverse ++ [name] := by
        rw [← List.reverse_cons, ne_eq, List.reverse_inj]
        exact fun path => inside ⟨name, path⟩
      have same : (t.set l n).listing p = t.listing p := by
        rw [listing_eq, if_pos live, listing_eq, if_pos live, part, part, set,
          Trie.entries_insert_aside aside]
      exact same ▸ List.Sublist.refl _
  · rw [listing_eq, if_neg live]
    exact List.nil_sublist _

theorem mem_listing_of_node? {t : Tree} {p : Place} {name : Name} {n : Node}
    (live : p.removed = 0) (found : t.node? (name :: p.live) = some n) :
    (name, n) ∈ t.listing p := by
  rw [listing_eq, if_pos live]
  apply Trie.mem_entries_of_get?
  rw [← List.reverse_cons]
  rw [node?, if_neg (List.cons_ne_nil _ _)] at found
  exact found

end Tree

end RunLedger.File
