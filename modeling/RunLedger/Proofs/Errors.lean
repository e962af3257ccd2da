import RunLedger.Output.Target

set_option autoImplicit false

namespace RunLedger

namespace Logged

variable {α β : Type}

/-- The messages of the records of level error, oldest first. -/
def errors (x : Logged α) : List String :=
  x.records.filterMap fun r => if r.level = .error then some r.message else none

@[simp] theorem errors_pure (a : α) : (pure a : Logged α).errors = [] := rfl

@[simp] theorem errors_bind (x : Logged α) (f : α → Logged β) :
    (x >>= f).errors = x.errors ++ (f x.value).errors := by
  simp only [errors, records_bind, List.filterMap_append]

@[simp] theorem errors_map (f : α → β) (x : Logged α) : (f <$> x).errors = x.errors := by
  simp only [errors, records_map]

@[simp] theorem errors_log (l : Level) (m : String) :
    (log l m).errors = if l = .error then [m] else [] := by
  cases l <;> rfl

end Logged

@[simp] theorem Parameters.errors_get (p : Parameters) (key : String) :
    (p.get key).errors = [] := by
  simp [Logged.errors, Parameters.get]

@[simp] theorem Parameters.errors_getFlag (p : Parameters) (key : String) :
    (p.getFlag key).errors = [] := by
  simp only [getFlag, Logged.errors_bind, errors_get, List.nil_append]
  split
  · rfl
  · split <;> simp

namespace Output

@[simp] theorem errors_fileName (p : Parameters) : (fileName p).errors = [] := by
  simp [fileName]

@[simp] theorem errors_select (t : File.Tree) (cwd : String) (p : Parameters) :
    (Dir.select t cwd p).errors = [] := by
  simp only [Dir.select, Dir.selectIn, Logged.errors_bind, Parameters.errors_get, List.nil_append]
  split <;> rfl

@[simp] theorem errors_resolve (t : File.Tree) (cwd : String) (p : Parameters) :
    (resolve t cwd p).errors = [] := by
  simp only [resolve, Logged.errors_bind, errors_fileName, errors_select, List.nil_append]
  split
  · rfl
  · simp only [Logged.errors_bind, Logged.errors_log, reduceCtorEq, ↓reduceIte, List.nil_append]
    split <;> rfl

@[simp] theorem errors_write (t : File.Tree) (cwd : String) (p : Parameters) (ids : List String) :
    (write t cwd p ids).errors = [] := by
  simp only [write, Logged.errors_bind, errors_resolve, List.nil_append]
  split
  · rfl
  · simp only [Logged.errors_bind, Logged.errors_log, reduceCtorEq, ↓reduceIte, List.nil_append]
    split <;> rfl

end Output

end RunLedger
