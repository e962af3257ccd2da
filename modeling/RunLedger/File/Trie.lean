import RunLedger.File.Path

set_option autoImplicit false

namespace RunLedger.File

/-- What a map has at the empty list, and the maps below each name. -/
inductive Trie (α : Type) where
  | branch (value : Option α) (inside : List (Name × Trie α))

namespace Trie

variable {α : Type}

def value : Trie α → Option α
  | .branch v _ => v

def inside : Trie α → List (Name × Trie α)
  | .branch _ b => b

def empty : Trie α :=
  .branch none []

instance : Inhabited (Trie α) := ⟨empty⟩

/-- The map below a name. Below a name that is missing there is nothing. -/
def child : List (Name × Trie α) → Name → Trie α
  | [], _ => empty
  | (k', c) :: r, k => if k = k' then c else child r k

/-- Replaces the map below a name, or puts it behind all others. -/
def putChild (k : Name) (c : Trie α) : List (Name × Trie α) → List (Name × Trie α)
  | [] => [(k, c)]
  | (k', c') :: r => if k = k' then (k, c) :: r else (k', c') :: putChild k c r

/-- The map below several names, of which the first is the outermost. -/
def descend (t : Trie α) (ks : List Name) : Trie α :=
  ks.foldl (fun t k => child t.inside k) t

def get? (t : Trie α) (ks : List Name) : Option α :=
  (t.descend ks).value

def insert : List Name → α → Trie α → Trie α
  | [], a, t => .branch (some a) t.inside
  | k :: ks, a, t => .branch t.value (putChild k (insert ks a (child t.inside k)) t.inside)

/-- Removes what is at a list of names, and all below it. -/
def remove : List Name → Trie α → Trie α
  | [], _ => empty
  | [k], t => .branch t.value (t.inside.filter fun e => e.1 != k)
  | k :: ks, t => .branch t.value (putChild k (remove ks (child t.inside k)) t.inside)

mutual

/-- All entries, each with its names. -/
def toList : Trie α → List (List Name × α)
  | .branch v b => v.toList.map ([], ·) ++ listInside b

def listInside : List (Name × Trie α) → List (List Name × α)
  | [] => []
  | (k, c) :: r => c.toList.map (fun e => (k :: e.1, e.2)) ++ listInside r

end

@[simp] theorem get?_nil (t : Trie α) : t.get? [] = t.value := rfl

@[simp] theorem get?_cons (t : Trie α) (k : Name) (ks : List Name) :
    t.get? (k :: ks) = (child t.inside k).get? ks := rfl

theorem descend_concat (t : Trie α) (ks : List Name) (k : Name) :
    t.descend (ks ++ [k]) = child (t.descend ks).inside k := by
  rw [descend, List.foldl_append]
  rfl

theorem child_putChild (k : Name) (c : Trie α) (b : List (Name × Trie α)) (k' : Name) :
    child (putChild k c b) k' = if k' = k then c else child b k' := by
  induction b with
  | nil => rfl
  | cons e b ih =>
    obtain ⟨m, d⟩ := e
    by_cases hm : k = m
    · subst hm
      by_cases h : k' = k <;> simp [putChild, child, h]
    · by_cases h : k' = m
      · subst h
        simp [putChild, child, hm, Ne.symm hm]
      · simp [putChild, child, hm, h, ih]

theorem get?_insert (ks : List Name) (a : α) (t : Trie α) (ks' : List Name) :
    (t.insert ks a).get? ks' = if ks' = ks then some a else t.get? ks' := by
  induction ks generalizing t ks' with
  | nil => cases ks' <;> rfl
  | cons k ks ih =>
    cases ks' with
    | nil => rfl
    | cons k' ks' =>
      rw [insert, get?_cons, inside, child_putChild, get?_cons]
      by_cases h : k' = k
      · subst h
        simp [ih]
      · simp [h]

end Trie

end RunLedger.File
