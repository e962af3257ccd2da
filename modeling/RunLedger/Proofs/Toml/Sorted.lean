import RunLedger.Toml.Document

set_option autoImplicit false

namespace RunLedger

namespace Entries

variable {β : Type}

theorem mem_of_get? {l : Entries β} {k : String} {x : β} (found : l.get? k = some x) :
    (k, x) ∈ l := by
  induction l with
  | nil => cases found
  | cons e l ih =>
    obtain ⟨k', x'⟩ := e
    rw [get?_cons] at found
    by_cases same : k = k'
    · rw [if_pos same] at found
      rw [same, Option.some.inj found]
      exact List.mem_cons_self
    · rw [if_neg same] at found
      exact List.mem_cons_of_mem _ (ih found)

/-- Entries in order, with entries in order wherever one of them holds entries again. -/
inductive Sorted (inside? : β → Option (Entries β)) : Entries β → Prop
  | intro {l : Entries β} (ordered : l.Ordered)
      (within : ∀ e ∈ l, ∀ inner, inside? e.2 = some inner → Sorted inside? inner) :
      Sorted inside? l

namespace Sorted

variable {inside? : β → Option (Entries β)}

theorem nil : Sorted inside? [] := by
  refine .intro ordered_nil ?_
  intro e absent
  cases absent

theorem ordered {l : Entries β} (sorted : Sorted inside? l) : l.Ordered := by
  cases sorted with
  | intro ordered _ => exact ordered

theorem within {l inner : Entries β} {k : String} {x : β} (sorted : Sorted inside? l)
    (among : (k, x) ∈ l) (holds : inside? x = some inner) : Sorted inside? inner := by
  cases sorted with
  | intro _ within => exact within _ among inner holds

theorem insert {l : Entries β} (sorted : Sorted inside? l) (k : String) {x : β}
    (inner : ∀ m, inside? x = some m → Sorted inside? m) :
    Sorted inside? (Entries.insert k x l) := by
  refine .intro (sorted.ordered.insert k x) ?_
  intro e among m holds
  rcases mem_insert among with rfl | old
  · exact inner m holds
  · exact sorted.within old holds

end Sorted

end Entries

namespace Toml

/-- The entries of a table, if the value is one. -/
def Value.inside? : Value → Option Table
  | .table es => some es
  | _ => none

def Table.Sorted : Table → Prop :=
  Entries.Sorted Value.inside?

namespace Node

/-- The entries of what will be a table. Tables in an array are left out. -/
def inside? : Node → Option (Entries Node)
  | .closed es | .table _ es => some es
  | _ => none

def Sorted (n : Node) : Prop :=
  ∀ es, n.inside? = some es → Entries.Sorted inside? es

theorem sorted_of_inside? {n : Node} (plain : n.inside? = none) : n.Sorted := by
  intro es holds
  rw [plain] at holds
  cases holds

theorem sorted_table {es : Entries Node} (sorted : Entries.Sorted inside? es) (o : Origin) :
    (table o es).Sorted := by
  intro inner holds
  rw [← Option.some.inj holds]
  exact sorted

theorem sorted_closed {es : Entries Node} (sorted : Entries.Sorted inside? es) :
    (closed es).Sorted := by
  intro inner holds
  rw [← Option.some.inj holds]
  exact sorted

theorem sorted_of_get? {es : Entries Node} {k : String} {n : Node}
    (sorted : Entries.Sorted inside? es) (found : es.get? k = some n) : n.Sorted := by
  intro inner holds
  exact sorted.within (Entries.mem_of_get? found) holds

theorem sorted_of_get?_table {es inner : Entries Node} {k : String} {o : Origin}
    (sorted : Entries.Sorted inside? es) (found : es.get? k = some (.table o inner)) :
    Entries.Sorted inside? inner :=
  sorted_of_get? sorted found inner rfl

/-- To set an entry at a dotted key keeps the order. The induction is on the key. -/
theorem assign_sorted {n : Node} (good : n.Sorted) {path : List String} {es after : Entries Node}
    (sorted : Entries.Sorted inside? es) (assigned : n.assign path es = some after) :
    Entries.Sorted inside? after := by
  induction path generalizing es after with
  | nil => cases assigned
  | cons k path ih =>
    cases path with
    | nil =>
      rw [assign] at assigned
      split at assigned
      · rw [← Option.some.inj assigned]
        exact sorted.insert k good
      · cases assigned
    | cons k' path =>
      simp only [assign] at assigned
      split at assigned
      · obtain ⟨inner, set, rfl⟩ := Option.map_eq_some_iff.mp assigned
        exact sorted.insert k (sorted_table (ih .nil set) _)
      · rename_i found
        obtain ⟨inner, set, rfl⟩ := Option.map_eq_some_iff.mp assigned
        exact sorted.insert k (sorted_table (ih (sorted_of_get?_table sorted found) set) _)
      · rename_i found
        obtain ⟨inner, set, rfl⟩ := Option.map_eq_some_iff.mp assigned
        exact sorted.insert k (sorted_table (ih (sorted_of_get?_table sorted found) set) _)
      · split at assigned
        · cases assigned
        · obtain ⟨inner, set, rfl⟩ := Option.map_eq_some_iff.mp assigned
          exact sorted.insert k (sorted_of_inside? rfl)
      · cases assigned

/-- To change the table that a path leads to keeps the order, if the change itself keeps it. -/
theorem under_sorted {f : Entries Node → Option (Entries Node)}
    (keeps : ∀ es after, Entries.Sorted inside? es → f es = some after →
      Entries.Sorted inside? after)
    {path : List String} {es after : Entries Node} (sorted : Entries.Sorted inside? es)
    (changed : under f path es = some after) : Entries.Sorted inside? after := by
  induction path generalizing es after with
  | nil => exact keeps es after sorted changed
  | cons k path ih =>
    rw [under] at changed
    split at changed
    · obtain ⟨inner, set, rfl⟩ := Option.map_eq_some_iff.mp changed
      exact sorted.insert k (sorted_table (ih .nil set) _)
    · rename_i found
      obtain ⟨inner, set, rfl⟩ := Option.map_eq_some_iff.mp changed
      exact sorted.insert k (sorted_table (ih (sorted_of_get?_table sorted found) set) _)
    · obtain ⟨inner, set, rfl⟩ := Option.map_eq_some_iff.mp changed
      exact sorted.insert k (sorted_of_inside? rfl)
    · cases changed

theorem declare_sorted {k : String} {es after : Entries Node} (sorted : Entries.Sorted inside? es)
    (declared : declare k es = some after) : Entries.Sorted inside? after := by
  rw [declare] at declared
  split at declared
  · rw [← Option.some.inj declared]
    exact sorted.insert k (sorted_table .nil _)
  · rename_i found
    rw [← Option.some.inj declared]
    exact sorted.insert k (sorted_table (sorted_of_get?_table sorted found) _)
  · cases declared

theorem append_sorted {k : String} {es after : Entries Node} (sorted : Entries.Sorted inside? es)
    (appended : append k es = some after) : Entries.Sorted inside? after := by
  rw [append] at appended
  split at appended
  · rw [← Option.some.inj appended]
    exact sorted.insert k (sorted_of_inside? rfl)
  · rw [← Option.some.inj appended]
    exact sorted.insert k (sorted_of_inside? rfl)
  · cases appended

theorem table?_cons_eq_some {k : String} {n : Node} {es : Entries Node} {t : Table} :
    table? ((k, n) :: es) = some t ↔
      ∃ v, value? n = some v ∧ ∃ rest, table? es = some rest ∧ (k, v) :: rest = t := by
  simp only [table?, Option.bind_eq_bind, Option.bind_eq_some_iff, Option.pure_def,
    Option.some.injEq]

/-- The entries of a table keep their keys. -/
theorem keys_table? {es : Entries Node} {t : Table} (read : table? es = some t) :
    t.map Prod.fst = es.map Prod.fst := by
  induction es generalizing t with
  | nil =>
    rw [← Option.some.inj read]
    rfl
  | cons e es ih =>
    obtain ⟨v, _, rest, later, rfl⟩ := table?_cons_eq_some.mp read
    rw [List.map_cons, List.map_cons, ih later]

theorem mem_table? {es : Entries Node} {t : Table} (read : table? es = some t) {k : String}
    {v : Value} (among : (k, v) ∈ t) : ∃ n, (k, n) ∈ es ∧ value? n = some v := by
  induction es generalizing t with
  | nil =>
    rw [← Option.some.inj read] at among
    cases among
  | cons e es ih =>
    obtain ⟨v', valued, rest, later, rfl⟩ := table?_cons_eq_some.mp read
    rcases List.mem_cons.mp among with first | other
    · obtain ⟨rfl, rfl⟩ := Prod.mk.inj first
      exact ⟨e.2, List.mem_cons_self, valued⟩
    · obtain ⟨n, old, reads⟩ := ih later other
      exact ⟨n, List.mem_cons_of_mem _ old, reads⟩

theorem arrayValue?_eq_some {ts : List (List (String × Node))} {vs : List Value} {v : Value}
    (read : arrayValue? ts vs = some v) : ∃ items, v = .array items := by
  induction ts generalizing vs with
  | nil => exact ⟨vs, (Option.some.inj read).symm⟩
  | cons t ts ih =>
    simp only [arrayValue?, Option.bind_eq_bind, Option.bind_eq_some_iff] at read
    obtain ⟨_, _, later⟩ := read
    exact ih later

/-- A table is the value of a table with these entries. -/
theorem tableValue?_eq_table {es : Entries Node} {t : Table}
    (read : tableValue? es = some (.table t)) : table? es = some t := by
  cases es with
  | nil =>
    rw [tableValue?, Option.some.injEq, Value.table.injEq] at read
    rw [← read]
    rfl
  | cons e es =>
    obtain ⟨k, n⟩ := e
    rw [tableValue?] at read
    split at read
    · obtain ⟨m, _, impossible⟩ := Option.map_eq_some_iff.mp read
      cases impossible
    · simp only [Option.bind_eq_bind, Option.bind_eq_some_iff, Option.pure_def, Option.some.injEq,
        Value.table.injEq] at read
      exact table?_cons_eq_some.mpr read

theorem value?_eq_table {n : Node} {t : Table} (read : value? n = some (.table t)) :
    ∃ es, n.inside? = some es ∧ table? es = some t := by
  cases n with
  | string s => cases read
  | scalar s =>
    cases s with
    | boolean b | word x | moment m => cases read
    | integer base text =>
      obtain ⟨_, _, impossible⟩ := Option.map_eq_some_iff.mp read
      cases impossible
    | decimal negative digits exponent =>
      simp only [value?, Scalar.value?] at read
      split at read <;> cases read
  | array items =>
    obtain ⟨_, _, impossible⟩ := Option.map_eq_some_iff.mp read
    cases impossible
  | closed es => exact ⟨es, rfl, tableValue?_eq_table read⟩
  | table o es => exact ⟨es, rfl, tableValue?_eq_table read⟩
  | tables last earlier =>
    simp only [value?, Option.bind_eq_bind, Option.bind_eq_some_iff] at read
    obtain ⟨_, _, arrayed⟩ := read
    obtain ⟨_, impossible⟩ := arrayValue?_eq_some arrayed
    cases impossible

/-- Entries in order become a table in order. The induction is on the tables inside each other. -/
theorem table?_sorted {es : Entries Node} (sorted : Entries.Sorted inside? es) {t : Table}
    (read : table? es = some t) : t.Sorted := by
  induction sorted generalizing t with
  | @intro es ordered _ ih =>
    refine .intro ?_ ?_
    · have keys : (t.map Prod.fst).Pairwise (· < ·) := by
        rw [keys_table? read]
        exact List.pairwise_map.mpr ordered
      exact List.pairwise_map.mp keys
    · intro e among inner holds
      obtain ⟨k, v⟩ := e
      obtain ⟨n, old, valued⟩ := mem_table? read among
      cases v with
      | table entries =>
        rw [← Option.some.inj holds]
        obtain ⟨below, inside, reads⟩ := value?_eq_table valued
        exact ih (k, n) old below inside reads
      | string _ | integer _ | float _ | boolean _ | moment _ | array _ => cases holds

end Node

namespace Statement

/-- What a statement gives to an entry is in order. -/
def Sorted : Statement → Prop
  | .entry _ n => n.Sorted
  | _ => True

/-- An inline table that is being read is in order so far. -/
def Frame.Sorted : Frame → Prop
  | .table es _ => Entries.Sorted Node.inside? es
  | _ => True

/-- What was read, and what is being read, is in order. -/
structure Reader.Sorted (r : Reader) : Prop where
  done : ∀ s ∈ r.done, s.Sorted
  frames : ∀ f ∈ r.frames, f.Sorted

namespace Reader

theorem Sorted.expect {r : Reader} (sorted : r.Sorted) (e : Expect) :
    Sorted { r with expect := e } :=
  ⟨sorted.done, sorted.frames⟩

/-- A token of no account leaves the reader as it is. -/
theorem Sorted.stay {r r' : Reader} (sorted : r.Sorted) (same : some r = some r') : r'.Sorted :=
  Option.some.inj same ▸ sorted

theorem Sorted.move {r r' : Reader} (sorted : r.Sorted) {e : Expect}
    (moves : some { r with expect := e } = some r') : r'.Sorted :=
  Option.some.inj moves ▸ sorted.expect e

theorem Sorted.emit {r : Reader} (sorted : r.Sorted) {s : Statement} (good : s.Sorted) :
    (r.emit s).Sorted := by
  refine ⟨List.forall_mem_cons.mpr ⟨good, sorted.done⟩, ?_⟩
  intro f absent
  cases absent

theorem give_sorted {r r' : Reader} {n : Node} (sorted : r.Sorted) (good : n.Sorted)
    (given : r.give n = some r') : r'.Sorted := by
  obtain ⟨done, frames, e⟩ := r
  obtain ⟨done_sorted, frames_sorted⟩ := sorted
  cases frames with
  | nil => cases given
  | cons f fs =>
    obtain ⟨first, others⟩ := List.forall_mem_cons.mp frames_sorted
    cases f with
    | entry path =>
      rw [← Option.some.inj given]
      refine ⟨List.forall_mem_cons.mpr ⟨good, done_sorted⟩, ?_⟩
      intro f absent
      cases absent
    | array items =>
      rw [← Option.some.inj given]
      exact ⟨done_sorted, List.forall_mem_cons.mpr ⟨trivial, others⟩⟩
    | table es path =>
      obtain ⟨after, assigned, rfl⟩ := Option.map_eq_some_iff.mp given
      have after_sorted := Node.assign_sorted good first assigned
      exact ⟨done_sorted, List.forall_mem_cons.mpr ⟨after_sorted, others⟩⟩

theorem close_sorted {r r' : Reader} {t : Token} (sorted : r.Sorted)
    (closed : r.close t = some r') : r'.Sorted := by
  obtain ⟨done, frames, e⟩ := r
  obtain ⟨done_sorted, frames_sorted⟩ := sorted
  unfold close at closed
  split at closed
  · rename_i items fs same
    obtain ⟨_, others⟩ := List.forall_mem_cons.mp (same ▸ frames_sorted)
    have outer : Sorted ⟨done, fs, e⟩ := ⟨done_sorted, others⟩
    have good : (Node.array items.reverse).Sorted := Node.sorted_of_inside? rfl
    exact give_sorted outer good closed
  · rename_i es path fs same
    obtain ⟨first, others⟩ := List.forall_mem_cons.mp (same ▸ frames_sorted)
    have outer : Sorted ⟨done, fs, e⟩ := ⟨done_sorted, others⟩
    exact give_sorted outer (Node.sorted_closed first) closed
  · cases closed

theorem push_sorted {r r' : Reader} {f : Frame} {e : Expect} (sorted : r.Sorted) (good : f.Sorted)
    (pushed : r.push f e = some r') : r'.Sorted := by
  unfold push at pushed
  split at pushed
  · rw [← Option.some.inj pushed]
    exact ⟨sorted.done, List.forall_mem_cons.mpr ⟨good, sorted.frames⟩⟩
  · cases pushed

theorem begin_sorted {r r' : Reader} {t : Token} (sorted : r.Sorted)
    (begun : r.begin t = some r') : r'.Sorted := by
  unfold begin at begun
  split at begun
  · have good : (Frame.array []).Sorted := trivial
    exact push_sorted sorted good begun
  · have good : (Frame.table [] []).Sorted := Entries.Sorted.nil
    exact push_sorted sorted good begun
  · rename_i cs _
    have good : (Node.string (String.ofList cs)).Sorted := Node.sorted_of_inside? rfl
    exact give_sorted sorted good begun
  · exact sorted.move begun
  · cases begun

theorem addPart_sorted {r r' : Reader} {goal : Goal} {parts : List String} {t : Token}
    (sorted : r.Sorted) (added : r.addPart goal parts t = some r') : r'.Sorted := by
  obtain ⟨k, _, rfl⟩ := Option.map_eq_some_iff.mp added
  exact sorted.expect _

theorem key_sorted {r r' : Reader} {path : List String} (sorted : r.Sorted)
    (keyed : r.key path = some r') : r'.Sorted := by
  obtain ⟨done, frames, e⟩ := r
  obtain ⟨done_sorted, frames_sorted⟩ := sorted
  unfold key at keyed
  split at keyed
  · rw [← Option.some.inj keyed]
    exact ⟨done_sorted, List.forall_mem_singleton.mpr trivial⟩
  · rename_i es _ fs same
    obtain ⟨first, others⟩ := List.forall_mem_cons.mp (same ▸ frames_sorted)
    rw [← Option.some.inj keyed]
    exact ⟨done_sorted, List.forall_mem_cons.mpr ⟨first, others⟩⟩
  · cases keyed

theorem afterPart_sorted {r r' : Reader} {goal : Goal} {parts : List String} {t : Token}
    (sorted : r.Sorted) (went : r.afterPart goal parts t = some r') : r'.Sorted := by
  unfold afterPart at went
  split at went
  · exact sorted.stay went
  · split at went
    · exact sorted.move went
    · cases went
  · exact key_sorted sorted went
  · split at went
    · exact sorted.move went
    · cases went
  · rw [← Option.some.inj went]
    exact sorted.emit trivial
  · exact sorted.move went
  · cases went

theorem afterValue_sorted {r r' : Reader} {t : Token} (sorted : r.Sorted)
    (went : r.afterValue t = some r') : r'.Sorted := by
  unfold afterValue at went
  split at went
  all_goals first
    | exact sorted.stay went
    | exact sorted.move went
    | exact close_sorted sorted went
    | cases went

theorem inScalar_sorted {r r' : Reader} {read : List Char} {t : Token} (sorted : r.Sorted)
    (went : r.inScalar read t = some r') : r'.Sorted := by
  unfold inScalar at went
  split at went
  · exact sorted.move went
  · exact sorted.move went
  · exact sorted.move went
  · simp only [Option.bind_eq_bind, Option.bind_eq_some_iff] at went
    obtain ⟨x, _, given, gives, after⟩ := went
    have good : (Node.scalar x).Sorted := Node.sorted_of_inside? rfl
    exact afterValue_sorted (give_sorted sorted good gives) after

/-- One token keeps the order, whatever is expected. -/
theorem step_sorted {r r' : Reader} {t : Token} (sorted : r.Sorted)
    (went : r.step t = some r') : r'.Sorted := by
  unfold step at went
  split at went
  case h_15 =>
    rw [← Option.some.inj went]
    exact sorted.emit trivial
  case h_18 =>
    split at went
    · exact sorted.stay went
    · cases went
  -- In all other cases the token is of no account, is taken, is handed on or is refused.
  all_goals first
    | exact sorted.stay went
    | exact sorted.move went
    | exact addPart_sorted sorted went
    | exact afterPart_sorted sorted went
    | exact key_sorted sorted went
    | exact begin_sorted sorted went
    | exact inScalar_sorted sorted went
    | exact close_sorted sorted went
    | exact afterValue_sorted sorted went
    | cases went

theorem run_sorted {r r' : Reader} {ts : List Token} (sorted : r.Sorted)
    (ran : r.run ts = some r') : r'.Sorted := by
  induction ts generalizing r with
  | nil => exact sorted.stay ran
  | cons t ts ih =>
    rw [run, List.foldlM_cons, Option.bind_eq_bind, Option.bind_eq_some_iff] at ran
    obtain ⟨next, went, later⟩ := ran
    exact ih (step_sorted sorted went) later

end Reader

theorem ofTokens?_sorted {ts : List Token} {statements : List Statement}
    (read : ofTokens? ts = some statements) : ∀ s ∈ statements, s.Sorted := by
  have opening : Reader.Sorted ⟨[], [], .statement⟩ := by
    constructor
    · intro s absent
      cases absent
    · intro f absent
      cases absent
  simp only [ofTokens?, Option.bind_eq_bind, Option.bind_eq_some_iff] at read
  obtain ⟨r, ran, rest⟩ := read
  have closing := Reader.run_sorted opening ran
  split at rest
  · rw [← Option.some.inj rest]
    intro s among
    exact closing.done s (List.mem_reverse.mp among)
  · cases rest

end Statement

namespace Draft

/-- A statement keeps the entries of the document in order. -/
theorem add_sorted {d d' : Draft} {s : Statement} (sorted : Entries.Sorted Node.inside? d.entries)
    (good : s.Sorted) (added : d.add s = some d') : Entries.Sorted Node.inside? d'.entries := by
  cases s with
  | entry path n =>
    obtain ⟨after, changed, rfl⟩ := Option.map_eq_some_iff.mp added
    exact Node.under_sorted (fun _ _ => Node.assign_sorted good) sorted changed
  | header path =>
    simp only [add, enter, Option.bind_eq_bind, Option.bind_eq_some_iff, Option.pure_def,
      Option.some.injEq] at added
    obtain ⟨k, _, after, changed, rfl⟩ := added
    exact Node.under_sorted (fun _ _ => Node.declare_sorted) sorted changed
  | element path =>
    simp only [add, enter, Option.bind_eq_bind, Option.bind_eq_some_iff, Option.pure_def,
      Option.some.injEq] at added
    obtain ⟨k, _, after, changed, rfl⟩ := added
    exact Node.under_sorted (fun _ _ => Node.append_sorted) sorted changed

theorem foldlM_add_sorted {statements : List Statement} {d d' : Draft}
    (sorted : Entries.Sorted Node.inside? d.entries) (good : ∀ s ∈ statements, s.Sorted)
    (filled : statements.foldlM add d = some d') : Entries.Sorted Node.inside? d'.entries := by
  induction statements generalizing d with
  | nil =>
    rw [← Option.some.inj filled]
    exact sorted
  | cons s statements ih =>
    obtain ⟨first, others⟩ := List.forall_mem_cons.mp good
    rw [List.foldlM_cons, Option.bind_eq_bind, Option.bind_eq_some_iff] at filled
    obtain ⟨next, added, later⟩ := filled
    exact ih (add_sorted sorted first added) others later

end Draft

/-- Documents that are read are tables in order. -/
theorem read?_sorted {s : String} {t : Table} (read : read? s = some t) : t.Sorted := by
  simp only [read?, Option.bind_eq_bind, Option.bind_eq_some_iff] at read
  obtain ⟨ts, _, statements, spelled, d, filled, valued⟩ := read
  have sorted := Draft.foldlM_add_sorted .nil (Statement.ofTokens?_sorted spelled) filled
  exact Node.table?_sorted sorted valued

end Toml

end RunLedger
