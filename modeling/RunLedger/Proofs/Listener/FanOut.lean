import RunLedger.Listener
import RunLedger.Proofs.Recorder.History

set_option autoImplicit false

namespace RunLedger

open File

/-- Another value, told with the same testimony and files. -/
def Told.map {α β : Type} (f : α → β) (told : Told α) : Told β :=
  ⟨f told.value, told.testimony, told.tree⟩

namespace Listener

mutual

/-- What is left of a listener without its groups and boxes, from left to right. -/
def leaves : Listener → List Listener
  | .silent => [.silent]
  | .witness name heard => [.witness name heard]
  | .recorder r => [.recorder r]
  | .boxed l => leaves l
  | .group ls => leavesOf ls

def leavesOf : List Listener → List Listener
  | [] => []
  | l :: ls => leaves l ++ leavesOf ls

end

theorem leavesOf_singleton (l : Listener) : leavesOf [l] = leaves l :=
  List.append_nil _

theorem leavesOf_append (ls ms : List Listener) :
    leavesOf (ls ++ ms) = leavesOf ls ++ leavesOf ms := by
  induction ls with
  | nil => rfl
  | cons l ls ih => rw [List.cons_append, leavesOf, ih, leavesOf, List.append_assoc]

theorem notifyMembers_append (h : Hook) (t : Tree) (ls ms : List Listener) :
    notifyMembers h t (ls ++ ms) = do
      let first ← notifyMembers h t ls
      let others ← notifyMembers h first.tree ms
      return ⟨first.value ++ others.value, first.testimony ++ others.testimony, others.tree⟩ := by
  induction ls generalizing t with
  | nil =>
    simp only [List.nil_append, notifyMembers, pure_bind]
    exact (bind_pure _).symm
  | cons l ls ih =>
    simp only [List.cons_append, notifyMembers, ih, bind_assoc, pure_bind, List.append_assoc]

theorem notifyMembers_singleton (h : Hook) (t : Tree) (l : Listener) :
    notifyMembers h t [l] = Told.map ([·]) <$> notify h t l := by
  simp only [notifyMembers, pure_bind, List.append_nil, map_eq_pure_bind]
  rfl

mutual

/-- The leaves of a listener are told what it is told, and in the same way. -/
theorem notifyMembers_leaves (h : Hook) (t : Tree) :
    ∀ l : Listener, notifyMembers h t (leaves l) = Told.map leaves <$> notify h t l
  | .silent => rfl
  | .witness name heard => by
    rw [leaves, notifyMembers_singleton, notify]
    rfl
  | .recorder r => by
    rw [leaves, notifyMembers_singleton, notify]
    rfl
  | .boxed l => by
    rw [leaves, notifyMembers_leaves h t l, notify]
    simp only [map_eq_pure_bind, bind_assoc, pure_bind]
    rfl
  | .group ls => by
    rw [leaves, notifyMembers_leavesOf h t ls, notify]
    simp only [map_eq_pure_bind, bind_assoc, pure_bind]
    rfl

theorem notifyMembers_leavesOf (h : Hook) (t : Tree) :
    ∀ ls : List Listener,
      notifyMembers h t (leavesOf ls) = Told.map leavesOf <$> notifyMembers h t ls
  | [] => rfl
  | l :: ls => by
    rw [leavesOf, notifyMembers_append, notifyMembers_leaves h t l, notifyMembers]
    simp only [map_eq_pure_bind, bind_assoc, pure_bind]
    congr 1
    funext first
    have others := notifyMembers_leavesOf h first.tree ls
    simp only [map_eq_pure_bind] at others
    simp only [Told.map, others, bind_assoc, pure_bind, leavesOf]

end

/-- What a leaf tells of an announcement. -/
def tells (h : Hook) : Listener → Option Testimony
  | .witness name _ => some ⟨name, (hear h).value⟩
  | .silent | .recorder _ | .boxed _ | .group _ => none

mutual

/-- Each witness among the leaves tells of an announcement once, from left to right. -/
theorem testimony_notify (h : Hook) (t : Tree) :
    ∀ l : Listener, (notify h t l).value.testimony = (leaves l).filterMap (tells h)
  | .silent | .witness _ _ | .recorder _ => rfl
  | .boxed l => testimony_notify h t l
  | .group ls => testimony_notifyMembers h t ls

theorem testimony_notifyMembers (h : Hook) (t : Tree) :
    ∀ ls : List Listener,
      (notifyMembers h t ls).value.testimony = (leavesOf ls).filterMap (tells h)
  | [] => rfl
  | l :: ls => by
    rw [leavesOf, List.filterMap_append, ← testimony_notify h t l,
      ← testimony_notifyMembers h (notify h t l).value.tree ls]
    rfl

end

mutual

/-- What the files are like is of no account for what becomes of a listener. -/
theorem value_notify_files (h : Hook) (t t' : Tree) :
    ∀ l : Listener, (notify h t l).value.value = (notify h t' l).value.value
  | .silent | .witness _ _ => rfl
  | .recorder r => by
    change Listener.recorder (r.notify t h).value.1 = .recorder (r.notify t' h).value.1
    rw [Recorder.value_notify, Recorder.value_notify]
  | .boxed l => congrArg Listener.boxed (value_notify_files h t t' l)
  | .group ls => congrArg Listener.group (value_notifyMembers_files h t t' ls)

theorem value_notifyMembers_files (h : Hook) (t t' : Tree) :
    ∀ ls : List Listener, (notifyMembers h t ls).value.value = (notifyMembers h t' ls).value.value
  | [] => rfl
  | l :: ls => congrArg₂ List.cons (value_notify_files h t t' l)
      (value_notifyMembers_files h (notify h t l).value.tree (notify h t' l).value.tree ls)

end

theorem value_notifyMembers (h : Hook) (t files : Tree) (ls : List Listener) :
    (notifyMembers h t ls).value.value = ls.map fun l => (notify h files l).value.value := by
  induction ls generalizing t with
  | nil => rfl
  | cons l ls ih =>
    rw [List.map_cons, ← ih (notify h t l).value.tree, value_notify_files h files t l]
    rfl

theorem value_notifyAll_files (t t' : Tree) (l : Listener) (hooks : List Hook) :
    (notifyAll t l hooks).value.value = (notifyAll t' l hooks).value.value := by
  induction hooks generalizing t t' l with
  | nil => rfl
  | cons h rest ih =>
    simp only [notifyAll, Logged.value_bind, Logged.value_pure]
    rw [value_notify_files h t t' l]
    exact ih _ _ _

def Call.hook? : Call → Option Hook
  | .announce h => some h
  | .register _ => none

/-- Instead of a listener its leaves are registered. -/
def Call.flat : Call → List Call
  | .announce h => [.announce h]
  | .register m => (leaves m).map .register

/-- The leaves as members of one group. -/
def flat (l : Listener) : Listener :=
  .group (leaves l)

/-- What is told of some calls with these leaves there before. Each announcement is told by those
that are there by then. -/
def testimonyOf (present : List Listener) : List Call → List Testimony
  | [] => []
  | .announce h :: cs => present.filterMap (tells h) ++ testimonyOf present cs
  | .register m :: cs => testimonyOf (present ++ leaves m) cs

/-- A leaf as it was registered, and what was announced since then. -/
structure Attendance where
  leaf : Listener
  hooks : List Hook

/-- What becomes of the leaf if it alone is told, with whatever files. -/
def Attendance.alone (files : Tree) (a : Attendance) : Listener :=
  (notifyAll files a.leaf a.hooks).value.value

def attending (calls : List Call) (leaf : Listener) : Attendance :=
  ⟨leaf, calls.filterMap Call.hook?⟩

/-- The leaves that calls register, in their order. -/
def attendances : List Call → List Attendance
  | [] => []
  | .announce _ :: cs => attendances cs
  | .register m :: cs => (leaves m).map (attending cs) ++ attendances cs

theorem follow_registers (t : Tree) (ls ms : List Listener) (calls : List Call) :
    follow t (.group ls) (ms.map .register ++ calls) = follow t (.group (ls ++ ms)) calls := by
  induction ms generalizing ls with
  | nil => rw [List.append_nil]; rfl
  | cons m ms ih =>
    change follow t (.group (ls ++ [m])) (ms.map .register ++ calls) = _
    rw [ih, List.append_assoc]
    rfl

theorem notify_group (h : Hook) (t : Tree) (ls : List Listener) :
    notify h t (.group ls) = Told.map .group <$> notifyMembers h t ls := by
  rw [notify, map_eq_pure_bind]
  rfl

/-- With its leaves as members a group is told the same calls in the same way. -/
theorem follow_flat (t : Tree) (ls : List Listener) (calls : List Call) :
    follow t (.group (leavesOf ls)) (calls.flatMap Call.flat) =
      Told.map flat <$> follow t (.group ls) calls := by
  induction calls generalizing t ls with
  | nil => rfl
  | cons c calls ih =>
    cases c with
    | announce h =>
      change follow t (.group (leavesOf ls)) (.announce h :: calls.flatMap Call.flat) = _
      simp only [follow, notify_group, notifyMembers_leavesOf, map_eq_pure_bind, bind_assoc,
        pure_bind]
      congr 1
      funext told
      simp only [Told.map, ih, map_eq_pure_bind, bind_assoc, pure_bind]
    | register m =>
      change follow t (.group (leavesOf ls)) ((leaves m).map .register ++ calls.flatMap Call.flat) =
        Told.map flat <$> follow t (.group (ls ++ [m])) calls
      -- The leaves of a new member are registered one by one, with no announcement between them.
      rw [follow_registers, ← ih, leavesOf_append, leavesOf_singleton]

/-- What is told depends on the names of those present only, which an announcement does not
change. -/
theorem testimonyOf_congr {first second : List Listener} (calls : List Call)
    (same : ∀ h, first.filterMap (tells h) = second.filterMap (tells h)) :
    testimonyOf first calls = testimonyOf second calls := by
  induction calls generalizing first second with
  | nil => rfl
  | cons c calls ih =>
    cases c with
    | announce h => rw [testimonyOf, testimonyOf, same h, ih same]
    | register m =>
      rw [testimonyOf, testimonyOf]
      apply ih
      intro h
      rw [List.filterMap_append, List.filterMap_append, same h]

theorem tells_notify (h h' : Hook) (t : Tree) (l : Listener) :
    tells h' (notify h t l).value.value = tells h' l := by
  cases l <;> rfl

theorem leavesOf_notifyMembers (h : Hook) (t files : Tree) (ls : List Listener) :
    leavesOf (notifyMembers h t ls).value.value =
      (leavesOf ls).map fun l => (notify h files l).value.value := by
  rw [← value_notifyMembers h t files, notifyMembers_leavesOf, Logged.value_map]
  rfl

theorem testimony_follow (t : Tree) (ls : List Listener) (calls : List Call) :
    (follow t (.group ls) calls).value.testimony = testimonyOf (leavesOf ls) calls := by
  induction calls generalizing t ls with
  | nil => rfl
  | cons c calls ih =>
    cases c with
    | announce h =>
      have first : (notify h t (.group ls)).value.testimony = (leavesOf ls).filterMap (tells h) :=
        testimony_notify h t (.group ls)
      have others := ih (notify h t (.group ls)).value.tree (notifyMembers h t ls).value.value
      -- Leaves that have been told of something still have their names.
      have stay : testimonyOf (leavesOf (notifyMembers h t ls).value.value) calls =
          testimonyOf (leavesOf ls) calls := by
        apply testimonyOf_congr
        intro h'
        rw [leavesOf_notifyMembers h t t, List.filterMap_map]
        simp only [Function.comp_def, tells_notify]
      rw [testimonyOf, ← first, ← stay, ← others]
      rfl
    | register m =>
      rw [testimonyOf, ← leavesOf_singleton, ← leavesOf_append]
      exact ih t (ls ++ [m])

/-- What becomes of a leaf that is told of one announcement, and then of others. -/
theorem alone_attending_announce (h : Hook) (calls : List Call) (files : Tree) (l : Listener) :
    (attending (.announce h :: calls) l).alone files =
      (attending calls (notify h files l).value.value).alone files := by
  change (notifyAll files l (h :: calls.filterMap Call.hook?)).value.value = _
  rw [notifyAll]
  exact value_notifyAll_files _ files _ _

theorem leaves_follow (t files : Tree) (ls : List Listener) (calls : List Call) :
    leaves (follow t (.group ls) calls).value.value =
      ((leavesOf ls).map (attending calls) ++ attendances calls).map (·.alone files) := by
  induction calls generalizing t ls with
  | nil =>
    rw [attendances, List.append_nil, List.map_map]
    exact (List.map_id _).symm
  | cons c calls ih =>
    cases c with
    | announce h =>
      have others := ih (notify h t (.group ls)).value.tree (notifyMembers h t ls).value.value
      rw [leavesOf_notifyMembers h t files, List.map_append, List.map_map, List.map_map] at others
      rw [attendances, List.map_append, List.map_map]
      simp only [Function.comp_def, alone_attending_announce] at others ⊢
      exact others
    | register m =>
      have others := ih t (ls ++ [m])
      rw [leavesOf_append, leavesOf_singleton, List.map_append (f := attending calls),
        List.append_assoc] at others
      exact others

/-- Neither a group nor a box. -/
def isLeaf : Listener → Bool
  | .silent | .witness _ _ | .recorder _ => true
  | .boxed _ | .group _ => false

mutual

theorem isLeaf_of_mem_leaves : ∀ {l m : Listener}, m ∈ leaves l → m.isLeaf = true
  | .silent, _, .head _ | .witness _ _, _, .head _ | .recorder _, _, .head _ => rfl
  | .boxed l, _, among => @isLeaf_of_mem_leaves l _ among
  | .group ls, _, among => @isLeaf_of_mem_leavesOf ls _ among

theorem isLeaf_of_mem_leavesOf :
    ∀ {ls : List Listener} {m : Listener}, m ∈ leavesOf ls → m.isLeaf = true
  | [], _, among => nomatch among
  | l :: ls, _, among => by
    rw [leavesOf, List.mem_append] at among
    rcases among with first | others
    · exact isLeaf_of_mem_leaves first
    · exact isLeaf_of_mem_leavesOf others

end

/-- A host calls a group with any members. All that is told, logged and written is the same for the
group that has the leaves as its members, right where they were. Of each announcement every witness
that is there by then tells once, in the order of the leaves. In the end each leaf, a recorder or a
witness, is what it would be if it alone had been told all that was announced since it was
registered, whatever the files: no listener is affected by what another one does, or fails to do, to
them. -/
theorem follow_as_leaves (t : Tree) (members : List Listener) (calls : List Call) :
    let told := follow t (.group members) calls
    follow t (.group (leavesOf members)) (calls.flatMap Call.flat) = Told.map flat <$> told ∧
      told.value.testimony = testimonyOf (leavesOf members) calls ∧
      (∀ l ∈ leaves told.value.value, l.isLeaf = true) ∧
      ∀ files, leaves told.value.value =
        ((leavesOf members).map (attending calls) ++ attendances calls).map (·.alone files) :=
  ⟨follow_flat t members calls, testimony_follow t members calls, fun _ => isLeaf_of_mem_leaves,
    fun files => leaves_follow t files members calls⟩

example :
    (follow .withDevices (.group [.witness "a" [], .group [.silent, .boxed (.witness "b" [])]])
      [.announce (.runStarted .empty), .register (.group [.witness "c" []]),
        .announce (.runFinished .empty)]).value.testimony.map (·.witness) =
      ["a", "b", "a", "b", "c"] :=
  rfl

end Listener

end RunLedger
