set_option autoImplicit false

namespace RunLedger

inductive Level where
  | trace
  | debug
  | error
  deriving DecidableEq, Repr

structure Record where
  level : Level
  message : String
  deriving DecidableEq, Repr

/-- A value and the records that were logged to obtain it, oldest first. -/
structure Logged (α : Type) where
  value : α
  records : List Record
  deriving DecidableEq, Repr

namespace Logged

variable {α β γ : Type}

instance : Monad Logged where
  pure a := ⟨a, []⟩
  bind x f := ⟨(f x.value).value, x.records ++ (f x.value).records⟩

/-- Writes one record. -/
def log (level : Level) (message : String) : Logged Unit :=
  ⟨(), [⟨level, message⟩]⟩

@[simp] theorem value_pure (a : α) : (pure a : Logged α).value = a := rfl

@[simp] theorem records_pure (a : α) : (pure a : Logged α).records = [] := rfl

@[simp] theorem value_bind (x : Logged α) (f : α → Logged β) :
    (x >>= f).value = (f x.value).value := rfl

@[simp] theorem records_bind (x : Logged α) (f : α → Logged β) :
    (x >>= f).records = x.records ++ (f x.value).records := rfl

@[simp] theorem value_map (f : α → β) (x : Logged α) : (f <$> x).value = f x.value := rfl

@[simp] theorem records_map (f : α → β) (x : Logged α) : (f <$> x).records = x.records :=
  List.append_nil _

@[simp] theorem value_log (l : Level) (m : String) : (log l m).value = () := rfl

@[simp] theorem records_log (l : Level) (m : String) : (log l m).records = [⟨l, m⟩] := rfl

theorem ext {x y : Logged α} (hv : x.value = y.value) (hr : x.records = y.records) : x = y := by
  cases x; cases y; subst hv; subst hr; rfl

private theorem log_id_map (x : Logged α) : id <$> x = x :=
  ext rfl (List.append_nil _)

private theorem log_pure_bind (a : α) (f : α → Logged β) : pure a >>= f = f a :=
  ext rfl (List.nil_append _)

private theorem log_bind_assoc (x : Logged α) (f : α → Logged β) (g : β → Logged γ) :
    x >>= f >>= g = x >>= fun a => f a >>= g :=
  ext rfl (List.append_assoc _ _ _)

instance : LawfulMonad Logged :=
  LawfulMonad.mk' Logged log_id_map log_pure_bind log_bind_assoc

end Logged

end RunLedger
