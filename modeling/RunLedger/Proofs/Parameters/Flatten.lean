import RunLedger.Parameters.Document
import RunLedger.Proofs.Text.Bytes
import RunLedger.Proofs.Toml.Sorted

set_option autoImplicit false

namespace RunLedger

namespace Entries

variable {β : Type}

theorem Ordered.unique {l : Entries β} (ordered : l.Ordered) {k : String} {x y : β}
    (one : (k, x) ∈ l) (other : (k, y) ∈ l) : x = y := by
  induction l with
  | nil => cases one
  | cons e l ih =>
    obtain ⟨first, later⟩ := List.pairwise_cons.mp ordered
    rcases List.mem_cons.mp one with rfl | one
    · rcases List.mem_cons.mp other with same | other
      · exact (Prod.mk.inj same).2.symm
      · exact absurd (first _ other) (String.lt_irrefl _)
    · rcases List.mem_cons.mp other with same | other
      · rw [← same] at first
        exact absurd (first _ one) (String.lt_irrefl _)
      · exact ih later one other

theorem length_insert {k : String} (x : β) {l : Entries β} (fresh : l.get? k = none) :
    (insert k x l).length = l.length + 1 := by
  induction l with
  | nil => rfl
  | cons e l ih =>
    obtain ⟨k', x'⟩ := e
    rw [get?_cons] at fresh
    split at fresh
    · cases fresh
    · rename_i other
      rw [insert, if_neg other]
      split
      · rfl
      · rw [List.length_cons, ih fresh, List.length_cons]

end Entries

namespace Document

open Text Toml

/-- A path of names leads from a table to a value that is no table. -/
inductive Reaches : Table → List String → Value → Prop
  | leaf {es : Table} {k : String} {v : Value} (among : (k, v) ∈ es) (plain : v.inside? = none) :
      Reaches es [k] v
  | inside {es below : Table} {k : String} {path : List String} {v : Value}
      (among : (k, .table below) ∈ es) (rest : Reaches below path v) : Reaches es (k :: path) v

/-- The key that the names of a path join. -/
def joined (path : List String) : String :=
  ".".intercalate path

/-- Paths are compared name by name, and names by the bytes that spell them. -/
def Before : List String → List String → Prop :=
  List.Lex fun one other => Utf8.encode one < Utf8.encode other

mutual

/-- The values that a value of a name holds, with their paths. -/
def valueLeaves (k : String) : Value → List (List String × Value)
  | .table es => (leaves es).map fun l => (k :: l.1, l.2)
  | v => [([k], v)]

def leaves : List (String × Value) → List (List String × Value)
  | [] => []
  | (k, v) :: es => valueLeaves k v ++ leaves es

end

theorem valueLeaves_of_plain (k : String) {v : Value} (plain : v.inside? = none) :
    valueLeaves k v = [([k], v)] := by
  cases v with
  | table es => cases plain
  | string _ | integer _ | float _ | boolean _ | moment _ | array _ => rfl

theorem valueLeaves_cases (k : String) (v : Value) :
    (∃ es, v = .table es ∧ valueLeaves k v = (leaves es).map fun l => (k :: l.1, l.2)) ∨
      (v.inside? = none ∧ valueLeaves k v = [([k], v)]) := by
  cases v with
  | table es => exact .inl ⟨es, rfl, rfl⟩
  | string _ | integer _ | float _ | boolean _ | moment _ | array _ => exact .inr ⟨rfl, rfl⟩

theorem Reaches.mono {es es' : Table} (more : es ⊆ es') {path : List String} {v : Value}
    (reaches : Reaches es path v) : Reaches es' path v := by
  cases reaches with
  | leaf among plain => exact .leaf (more among) plain
  | inside among rest => exact .inside (more among) rest

mutual

theorem reaches_of_mem_valueLeaves {k : String} {v : Value} {l : List String × Value}
    (listed : l ∈ valueLeaves k v) {es : Table} (among : (k, v) ∈ es) : Reaches es l.1 l.2 := by
  match v with
  | .table below =>
    obtain ⟨inner, found, rfl⟩ := List.mem_map.mp listed
    exact .inside among (reaches_of_mem_leaves found)
  | .string _ | .integer _ | .float _ | .boolean _ | .moment _ | .array _ =>
    rw [List.mem_singleton.mp listed]
    exact .leaf among rfl

theorem reaches_of_mem_leaves {es : Table} {l : List String × Value} (listed : l ∈ leaves es) :
    Reaches es l.1 l.2 := by
  match es with
  | [] => cases listed
  | (k, v) :: rest =>
    rcases List.mem_append.mp listed with first | later
    · exact reaches_of_mem_valueLeaves first List.mem_cons_self
    · exact (reaches_of_mem_leaves later).mono (List.subset_cons_self _ _)

end

theorem mem_leaves_of_mem {es : Table} {k : String} {v : Value} (among : (k, v) ∈ es)
    {l : List String × Value} (listed : l ∈ valueLeaves k v) : l ∈ leaves es := by
  induction es with
  | nil => cases among
  | cons e es ih =>
    rcases List.mem_cons.mp among with rfl | later
    · exact List.mem_append_left _ listed
    · exact List.mem_append_right _ (ih later)

/-- The listing has all that is reached and nothing else. -/
theorem mem_leaves_iff {es : Table} {path : List String} {v : Value} :
    (path, v) ∈ leaves es ↔ Reaches es path v := by
  constructor
  · exact reaches_of_mem_leaves
  · intro reaches
    induction reaches with
    | leaf among plain =>
      apply mem_leaves_of_mem among
      rw [valueLeaves_of_plain _ plain]
      exact List.mem_singleton_self _
    | inside among _ ih =>
      apply mem_leaves_of_mem among
      exact List.mem_map.mpr ⟨_, ih, rfl⟩

theorem head_of_mem_valueLeaves {k : String} {v : Value} {l : List String × Value}
    (listed : l ∈ valueLeaves k v) : ∃ rest, l.1 = k :: rest := by
  rcases valueLeaves_cases k v with ⟨es, -, lists⟩ | ⟨-, lists⟩
  · rw [lists] at listed
    obtain ⟨inner, _, rfl⟩ := List.mem_map.mp listed
    exact ⟨inner.1, rfl⟩
  · rw [lists] at listed
    rw [List.mem_singleton.mp listed]
    exact ⟨[], rfl⟩

theorem head_of_mem_leaves {es : Table} {l : List String × Value} (listed : l ∈ leaves es) :
    ∃ e ∈ es, ∃ rest, l.1 = e.1 :: rest := by
  induction es with
  | nil => cases listed
  | cons e es ih =>
    rcases List.mem_append.mp listed with first | later
    · exact ⟨e, List.mem_cons_self, head_of_mem_valueLeaves first⟩
    · obtain ⟨e', among, rest⟩ := ih later
      exact ⟨e', List.mem_cons_of_mem _ among, rest⟩

/-- In a table in order, what is reached is listed in the order of the paths. The outer induction is
on the tables inside each other, and the inner one on the entries of one. -/
theorem leaves_pairwise {t : Table} (sorted : t.Sorted) :
    (leaves t).Pairwise fun one other => Before one.1 other.1 := by
  induction sorted with
  | @intro es ordered deep within =>
    clear deep
    induction es with
    | nil => exact .nil
    | cons e es ih =>
      obtain ⟨k, v⟩ := e
      obtain ⟨first, later⟩ := List.pairwise_cons.mp ordered
      refine List.pairwise_append.mpr ⟨?_, ?_, ?_⟩
      · rcases valueLeaves_cases k v with ⟨inner, rfl, lists⟩ | ⟨-, lists⟩
        · rw [lists, List.pairwise_map]
          refine (within _ List.mem_cons_self inner rfl).imp ?_
          intro _ _ before
          exact .cons before
        · rw [lists]
          exact List.pairwise_singleton _ _
      · apply ih later
        intro e among
        exact within e (List.mem_cons_of_mem _ among)
      · intro one here other there
        obtain ⟨rest, path⟩ := head_of_mem_valueLeaves here
        obtain ⟨e, among, rest', path'⟩ := head_of_mem_leaves there
        rw [path, path']
        exact .rel ((Utf8.encode_lt_encode_iff _ _).mpr (first e among))

theorem joined_cons_cons (one other : String) (path : List String) :
    joined (one :: other :: path) = joined ((one ++ "." ++ other) :: path) := by
  cases path with
  | nil => rfl
  | cons k path =>
    simp only [joined, String.intercalate_cons_cons, String.append_assoc]

/-- The key of a path below a table that has the key `above`. -/
def joinedBelow (above : Option String) (path : List String) : String :=
  joined (above.toList ++ path)

theorem joinedBelow_none (path : List String) : joinedBelow none path = joined path := rfl

theorem joinedBelow_cons (above : Option String) (k : String) (path : List String) :
    joinedBelow above (k :: path) = joinedBelow (some (joinKey above k)) path := by
  cases above with
  | none => rfl
  | some a => exact joined_cons_cons a k path

/-- Adds a value that was reached. -/
def insertLeaf (above : Option String) (d : Dictionary) (l : List String × Value) : Dictionary :=
  d.insert (joinedBelow above l.1) (text l.2)

mutual

theorem flattenValue_eq (d : Dictionary) (above : Option String) (k : String) (v : Value) :
    flattenValue d (joinKey above k) v = (valueLeaves k v).foldl (insertLeaf above) d := by
  match v with
  | .table es =>
    have below : (fun (d : Dictionary) (l : List String × Value) =>
        insertLeaf above d (k :: l.1, l.2)) = insertLeaf (some (joinKey above k)) := by
      funext d l
      rw [insertLeaf, insertLeaf, joinedBelow_cons]
    rw [flattenValue, valueLeaves, List.foldl_map, below]
    exact flattenTable_eq d (some (joinKey above k)) es
  | .string _ | .integer _ | .float _ | .boolean _ | .moment _ | .array _ =>
    change d.insert _ _ = d.insert (joinedBelow above [k]) _
    rw [joinedBelow_cons]
    rfl

/-- To flatten a table is to add what is reached, in the order of the listing. -/
theorem flattenTable_eq (d : Dictionary) (above : Option String) (es : List (String × Value)) :
    flattenTable d above es = (leaves es).foldl (insertLeaf above) d := by
  match es with
  | [] => rfl
  | (k, v) :: es =>
    rw [flattenTable, leaves, List.foldl_append, flattenValue_eq d above k v]
    exact flattenTable_eq _ above es

end

theorem flatten_eq (t : Table) : flatten t = (leaves t).foldl (insertLeaf none) .empty :=
  flattenTable_eq .empty none t

/-- Of the values that are added at a key the last one stays. -/
theorem get?_foldl_insertLeaf (ls : List (List String × Value)) (d : Dictionary) (key : String) :
    (ls.foldl (insertLeaf none) d).get? key =
      (((ls.filter fun l => joined l.1 = key).getLast?.map fun l => text l.2) <|> d.get? key) := by
  induction ls generalizing d with
  | nil => rfl
  | cons l ls ih =>
    rw [List.foldl_cons, ih, insertLeaf, joinedBelow_none, Dictionary.get?_insert]
    by_cases same : joined l.1 = key
    · rw [List.filter_cons_of_pos (by simpa using same), List.getLast?_cons, if_pos same.symm]
      cases (ls.filter fun l => joined l.1 = key).getLast? <;> rfl
    · rw [List.filter_cons_of_neg (by simpa using same), if_neg (Ne.symm same)]

/-- No other path that joins the key comes after this one. -/
structure IsLast (t : Table) (key : String) (path : List String) (v : Value) : Prop where
  reaches : Reaches t path v
  joins : joined path = key
  last : ∀ other w, Reaches t other w → joined other = key → other = path ∨ Before other path

theorem Before.irrefl (path : List String) : ¬ Before path path :=
  List.lex_irrefl (fun name => List.lt_irrefl (Utf8.encode name)) path

theorem Before.asymm {one other : List String} (before : Before one other) : ¬ Before other one :=
  List.lex_asymm (fun less => List.lt_asymm less) before

/-- In a table in order no path goes on behind a value that is no table. -/
theorem Reaches.eq_of_prefix {t : Table} (sorted : t.Sorted) {path other : List String}
    {v w : Value} (one : Reaches t path v) (two : Reaches t other w) (front : path <+: other) :
    path = other ∧ v = w := by
  induction one generalizing other with
  | leaf among plain =>
    cases two with
    | leaf among' plain' =>
      rw [List.cons_prefix_cons] at front
      rw [← front.1] at among'
      exact ⟨by rw [front.1], sorted.ordered.unique among among'⟩
    | inside among' rest =>
      rw [List.cons_prefix_cons] at front
      rw [← front.1] at among'
      rw [sorted.ordered.unique among among'] at plain
      cases plain
  | inside among rest ih =>
    cases two with
    | leaf among' plain' =>
      rw [List.cons_prefix_cons] at front
      rw [← front.1] at among'
      rw [← sorted.ordered.unique among among'] at plain'
      cases plain'
    | inside among' rest' =>
      rw [List.cons_prefix_cons] at front
      rw [← front.1] at among'
      cases Value.table.inj (sorted.ordered.unique among among')
      obtain ⟨same, values⟩ := ih (sorted.within among rfl) rest' front.2
      exact ⟨by rw [front.1, same], values⟩

/-- At most one path is the last one of a key, and it leads to one value. -/
theorem IsLast.unique {t : Table} (sorted : t.Sorted) {key : String} {path other : List String}
    {v w : Value} (one : IsLast t key path v) (two : IsLast t key other w) : v = w := by
  have same : path = other := by
    rcases two.last path v one.reaches one.joins with same | before
    · exact same
    · rcases one.last other w two.reaches two.joins with same | behind
      · exact same.symm
      · exact absurd behind before.asymm
  rw [same] at one
  exact (one.reaches.eq_of_prefix sorted two.reaches List.prefix_rfl).2

theorem isLast_of_getLast? {t : Table} (sorted : t.Sorted) {key : String}
    {l : List String × Value}
    (last : ((leaves t).filter fun l => joined l.1 = key).getLast? = some l) :
    IsLast t key l.1 l.2 := by
  have order := (leaves_pairwise sorted).filter fun l => decide (joined l.1 = key)
  have among := List.mem_filter.mp (List.mem_of_getLast? last)
  refine ⟨mem_leaves_iff.mp among.1, by simpa using among.2, ?_⟩
  intro other w reaches joins
  have there : (other, w) ∈ (leaves t).filter fun l => joined l.1 = key :=
    List.mem_filter.mpr ⟨mem_leaves_iff.mpr reaches, by simpa using joins⟩
  obtain ⟨front, split⟩ := List.getLast?_eq_some_iff.mp last
  rw [split] at order there
  rcases List.mem_append.mp there with before | same
  · exact .inr ((List.pairwise_append.mp order).2.2 _ before _ (List.mem_singleton_self _))
  · exact .inl (congrArg Prod.fst (List.mem_singleton.mp same))

theorem get?_flatten (t : Table) (key : String) :
    (flatten t).get? key =
      ((leaves t).filter fun l => joined l.1 = key).getLast?.map fun l => text l.2 := by
  rw [flatten_eq, get?_foldl_insertLeaf]
  cases ((leaves t).filter fun l => joined l.1 = key).getLast? <;> rfl

theorem get?_flatten_eq_none {t : Table} {key : String} :
    (flatten t).get? key = none ↔ ¬ ∃ path v, Reaches t path v ∧ joined path = key := by
  rw [get?_flatten, Option.map_eq_none_iff, List.getLast?_eq_none_iff, List.filter_eq_nil_iff]
  constructor
  · rintro nowhere ⟨path, v, reaches, joins⟩
    exact nowhere (path, v) (mem_leaves_iff.mpr reaches) (by simpa using joins)
  · intro nowhere l listed joins
    exact nowhere ⟨l.1, l.2, mem_leaves_iff.mp listed, by simpa using joins⟩

theorem get?_flatten_eq_some {t : Table} (sorted : t.Sorted) {key x : String} :
    (flatten t).get? key = some x ↔ ∃ path v, IsLast t key path v ∧ text v = x := by
  constructor
  · intro found
    rw [get?_flatten] at found
    obtain ⟨l, last, rfl⟩ := Option.map_eq_some_iff.mp found
    exact ⟨l.1, l.2, isLast_of_getLast? sorted last, rfl⟩
  · rintro ⟨path, v, greatest, rfl⟩
    cases found : (flatten t).get? key with
    | none =>
      have nowhere := get?_flatten_eq_none.mp found
      exact absurd ⟨path, v, greatest.reaches, greatest.joins⟩ nowhere
    | some x =>
      rw [get?_flatten] at found
      obtain ⟨l, last, rfl⟩ := Option.map_eq_some_iff.mp found
      rw [greatest.unique sorted (isLast_of_getLast? sorted last)]

theorem Reaches.ne_nil {t : Table} {path : List String} {v : Value} (reaches : Reaches t path v) :
    path ≠ [] := by
  cases reaches <;> exact List.cons_ne_nil _ _

/-- Behind its first name a path has a key of its own, with a point in front of it, or nothing. -/
theorem toList_joined_cons (k : String) (path : List String) :
    (joined (k :: path)).toList =
      k.toList ++ if path = [] then [] else '.' :: (joined path).toList := by
  cases path with
  | nil => simp [joined]
  | cons other path => simp [joined, String.intercalate_cons_cons]

/-- Two paths join the same key and neither goes on behind the other. Where they part, the greater
one has a name that goes on behind the name of the other one with a point. The induction is on the
names that they share. -/
theorem dotted_of_before {path other : List String} (before : Before path other)
    (same : joined path = joined other) (parts : ¬ path <+: other) :
    ∃ front name more later later', path = front ++ name :: later ∧
      other = front ++ (name ++ "." ++ more) :: later' := by
  induction before with
  | nil => exact absurd List.nil_prefix parts
  | @cons k path other before ih =>
    have chars := congrArg String.toList same
    rw [toList_joined_cons, toList_joined_cons, List.append_cancel_left_eq] at chars
    cases path with
    | nil => exact absurd (List.cons_prefix_cons.mpr ⟨rfl, List.nil_prefix⟩) parts
    | cons name path =>
      cases other with
      | nil => cases before
      | cons name' other =>
        have later := String.toList_inj.mp (List.cons.inj chars).2
        have apart : ¬ name :: path <+: name' :: other := by
          intro front
          exact parts (List.cons_prefix_cons.mpr ⟨rfl, front⟩)
        obtain ⟨front, x, more, rest, rest', one, two⟩ := ih later apart
        exact ⟨k :: front, x, more, rest, rest', by rw [one, List.cons_append],
          by rw [two, List.cons_append]⟩
  | @rel one path two other less =>
    have chars := congrArg String.toList same
    rw [toList_joined_cons, toList_joined_cons, List.append_eq_append_iff] at chars
    rcases chars with ⟨rest, longer, behind⟩ | ⟨rest, longer, -⟩
    · cases rest with
      | nil =>
        rw [List.append_nil, String.toList_inj] at longer
        rw [longer] at less
        exact absurd less (List.lt_irrefl _)
      | cons c rest =>
        have point : c = '.' := by
          split at behind
          · cases behind
          · exact (List.cons.inj behind).1.symm
        have name : two = one ++ "." ++ String.ofList rest := by
          rw [← String.toList_inj, longer, point]
          simp
        exact ⟨[], one, String.ofList rest, path, other, rfl, by rw [name, List.nil_append]⟩
    · have begins : two.toList <+: one.toList := ⟨rest, longer.symm⟩
      have front : ¬ one.toList < two.toList := List.not_lt.mpr begins.le
      exact absurd (String.lt_iff_toList_lt.mp ((Utf8.encode_lt_encode_iff _ _).mp less)) front

/-- Names without points can be told apart in the key that they join, empty ones too. -/
theorem joined_inj {path other : List String} (filled : path ≠ []) (filled' : other ≠ [])
    (plain : ∀ name ∈ path, '.' ∉ name.toList) (plain' : ∀ name ∈ other, '.' ∉ name.toList)
    (same : joined path = joined other) : path = other := by
  have split {names : List String} (filled : names ≠ [])
      (plain : ∀ name ∈ names, '.' ∉ name.toList) :
      (joined names).toList.splitOn '.' = names.map String.toList := by
    rw [joined, String.toList_intercalate]
    refine List.splitOn_intercalate '.' ?_ ?_
    · intro cs among
      obtain ⟨name, there, rfl⟩ := List.mem_map.mp among
      exact plain name there
    · rw [ne_eq, List.map_eq_nil_iff]
      exact filled
  have names : path.map String.toList = other.map String.toList := by
    rw [← split filled plain, ← split filled' plain', same]
  exact List.map_injective_iff.mpr (fun _ _ same => String.toList_inj.mp same) names

/-- If no key joins two of the paths that are added, every one of them adds an entry. -/
theorem size_foldl_insertLeaf {ls : List (List String × Value)} {d : Dictionary}
    (apart : ls.Pairwise fun one other => joined one.1 ≠ joined other.1)
    (fresh : ∀ l ∈ ls, d.get? (joined l.1) = none) :
    (ls.foldl (insertLeaf none) d).size = d.size + ls.length := by
  induction ls generalizing d with
  | nil => rfl
  | cons l ls ih =>
    obtain ⟨first, later⟩ := List.pairwise_cons.mp apart
    obtain ⟨here, there⟩ := List.forall_mem_cons.mp fresh
    have added : (insertLeaf none d l).size = d.size + 1 := Entries.length_insert _ here
    have fresh' : ∀ l' ∈ ls, (insertLeaf none d l).get? (joined l'.1) = none := by
      intro l' among
      rw [insertLeaf, joinedBelow_none, Dictionary.get?_insert, if_neg (Ne.symm (first l' among))]
      exact there l' among
    rw [List.foldl_cons, ih later fresh', added, List.length_cons]
    omega

/-- A document is read and flattened. A key is not set exactly if no path to a value that is no
table joins it. Otherwise it has the text of the value at the greatest of the paths that join it;
the text of a string is the string, and that of any other value the way it is written in a document.
Of two paths that join one key the greater one has, where they part, a name that goes on behind the
other's name with a point. So if no name on the paths has a point, every value is found at the key
of its own path, and there are as many entries as values. -/
theorem document_entries {s : String} {t : Table} (reads : read? s = some t) :
    ∃ d, ofText? s = some d ∧
      (∀ key, d.get? key = none ↔ ¬ ∃ path v, Reaches t path v ∧ joined path = key) ∧
      (∀ key x, d.get? key = some x ↔ ∃ path v, IsLast t key path v ∧ text v = x) ∧
      (∀ path other v w, Reaches t path v → Reaches t other w → joined path = joined other →
        Before path other → ∃ front name more later later', path = front ++ name :: later ∧
          other = front ++ (name ++ "." ++ more) :: later') ∧
      ((∀ path v, Reaches t path v → ∀ name ∈ path, '.' ∉ name.toList) →
        (∀ path v, Reaches t path v → d.get? (joined path) = some (text v)) ∧
          ∃ all : List (List String × Value), all.Nodup ∧
            (∀ path v, (path, v) ∈ all ↔ Reaches t path v) ∧ d.size = all.length) := by
  have sorted := read?_sorted reads
  refine ⟨flatten t, by rw [ofText?, reads, Option.map_some], fun _ => get?_flatten_eq_none,
    fun _ _ => get?_flatten_eq_some sorted, ?_, ?_⟩
  · intro path other v w one two same before
    apply dotted_of_before before same
    intro front
    rw [(one.eq_of_prefix sorted two front).1] at before
    exact Before.irrefl _ before
  · intro plain
    have alone {path other : List String} {v w : Value} (one : Reaches t path v)
        (two : Reaches t other w) (same : joined path = joined other) : path = other :=
      joined_inj one.ne_nil two.ne_nil (plain path v one) (plain other w two) same
    have order := leaves_pairwise sorted
    refine ⟨?_, leaves t, ?_, fun _ _ => mem_leaves_iff, ?_⟩
    · intro path v reaches
      refine (get?_flatten_eq_some sorted).mpr ⟨path, v, ⟨reaches, rfl, ?_⟩, rfl⟩
      intro other w reaches' same
      exact .inl (alone reaches' reaches same)
    · refine order.imp ?_
      rintro one other before rfl
      exact Before.irrefl _ before
    · rw [flatten_eq, size_foldl_insertLeaf ?_ (fun _ _ => rfl)]
      · exact Nat.zero_add _
      · refine order.imp_of_mem ?_
        intro one other here there before same
        rw [alone (mem_leaves_iff.mp here) (mem_leaves_iff.mp there) same] at before
        exact Before.irrefl _ before

/-- A name with a point, and a table whose entry joins the same key. -/
def collision : String :=
  "\x22a.b\x22 = 1\n[a]\nb = 2\nc = \x22two\x22\n"

theorem collision_flattened :
    ∃ t d, read? collision = some t ∧ ofText? collision = some d ∧
      d.get? "a" = none ∧ (¬ ∃ path v, Reaches t path v ∧ joined path = "a") ∧
      d.get? "a.b" = some "1" ∧ (∃ path v, IsLast t "a.b" path v ∧ text v = "1") ∧
      d.get? "a.c" = some "two" ∧ ∃ path v, IsLast t "a.c" path v ∧ text v = "two" := by
  have read : (read? collision).isSome = true := by decide +kernel
  obtain ⟨t, reads⟩ := Option.isSome_iff_exists.mp read
  obtain ⟨d, flat, absent, present, -, -⟩ := document_entries reads
  have found : (ofText? collision).map (fun d => (d.get? "a", d.get? "a.b", d.get? "a.c")) =
      some (none, some "1", some "two") := by decide +kernel
  rw [flat, Option.map_some, Option.some.injEq, Prod.mk.injEq, Prod.mk.injEq] at found
  obtain ⟨none, one, two⟩ := found
  exact ⟨t, d, reads, flat, none, (absent "a").mp none, one, (present _ _).mp one,
    two, (present _ _).mp two⟩

end Document

end RunLedger
