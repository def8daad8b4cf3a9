import Mathlib.Data.List.Nodup
import Mathlib.Data.List.Perm.Basic

/-!
# Accesses to memory that is freed

A run of a program that frees memory, as the list of its accesses: it reads or writes through a
pointer, or frees it. They are in order if no pointer is used or freed once it was freed.

## What is proved

* `noneStale_append` — runs one after the other.
* `NoneStale.nodup` — what is freed in order is freed once.
* `noneStale_map` — other names for the pointers.
-/

namespace PrismaticOS.Library

/-- An access. -/
inductive Access (α : Type*) where
  /-- The pointer is read or written through. -/
  | deref (p : α)
  /-- It is freed. -/
  | free (p : α)
  deriving DecidableEq

variable {α : Type*}

/-- The pointer. -/
def Access.target : Access α → α
  | .deref p => p
  | .free p => p

/-- What is freed, in this order. -/
def frees : List (Access α) → List α
  | [] => []
  | .deref _ :: log => frees log
  | .free p :: log => p :: frees log

/-- Nothing is used or freed that was freed before; some pointers were. -/
def NoneStale : List α → List (Access α) → Prop
  | _, [] => True
  | freed, .deref p :: log => p ∉ freed ∧ NoneStale freed log
  | freed, .free p :: log => p ∉ freed ∧ NoneStale (p :: freed) log

instance decidableNoneStale [DecidableEq α] :
    (freed : List α) → (log : List (Access α)) → Decidable (NoneStale freed log)
  | _, [] => inferInstanceAs (Decidable True)
  | freed, .deref p :: log =>
    have := decidableNoneStale freed log
    inferInstanceAs (Decidable (p ∉ freed ∧ NoneStale freed log))
  | freed, .free p :: log =>
    have := decidableNoneStale (p :: freed) log
    inferInstanceAs (Decidable (p ∉ freed ∧ NoneStale (p :: freed) log))

variable {freed freed' : List α} {log log' : List (Access α)} {p : α}

@[simp] theorem frees_nil : frees ([] : List (Access α)) = [] := rfl

@[simp] theorem frees_deref : frees (.deref p :: log) = frees log := rfl

@[simp] theorem frees_free : frees (.free p :: log) = p :: frees log := rfl

@[simp] theorem noneStale_nil : NoneStale freed [] := trivial

@[simp] theorem noneStale_deref :
    NoneStale freed (.deref p :: log) ↔ p ∉ freed ∧ NoneStale freed log := Iff.rfl

@[simp] theorem noneStale_free :
    NoneStale freed (.free p :: log) ↔ p ∉ freed ∧ NoneStale (p :: freed) log := Iff.rfl

@[simp] theorem frees_append : frees (log ++ log') = frees log ++ frees log' := by
  induction log with
  | nil => rfl
  | cons a log ih => cases a <;> simp [ih]

/-- The more was freed, the less may be used. -/
theorem NoneStale.mono (h : NoneStale freed log) (hsub : freed' ⊆ freed) :
    NoneStale freed' log := by
  induction log generalizing freed freed' with
  | nil => trivial
  | cons a log ih =>
    cases a with
    | deref p => exact ⟨fun hp => h.1 (hsub hp), ih h.2 hsub⟩
    | free p => exact ⟨fun hp => h.1 (hsub hp), ih h.2 (List.cons_subset_cons p hsub)⟩

/-- The order in which pointers were freed does not matter. -/
theorem noneStale_perm (h : freed.Perm freed') : NoneStale freed log ↔ NoneStale freed' log :=
  ⟨fun hs => hs.mono h.symm.subset, fun hs => hs.mono h.subset⟩

/-- **One run after the other.** -/
theorem noneStale_append : NoneStale freed (log ++ log') ↔
    NoneStale freed log ∧ NoneStale (frees log ++ freed) log' := by
  induction log generalizing freed with
  | nil => simp
  | cons a log ih =>
    cases a with
    | deref p => simp [ih, and_assoc]
    | free p =>
      have hperm : (frees log ++ p :: freed).Perm (p :: (frees log ++ freed)) := List.perm_middle
      simp [ih, and_assoc, noneStale_perm hperm]

/-- Pointers that a run has nothing to do with may have been freed before. -/
theorem NoneStale.weaken (h : NoneStale freed log) (hlog : ∀ a ∈ log, a.target ∉ freed') :
    NoneStale (freed ++ freed') log := by
  induction log generalizing freed with
  | nil => trivial
  | cons a log ih =>
    have hrest : ∀ a ∈ log, a.target ∉ freed' := fun a ha => hlog a (List.mem_cons_of_mem _ ha)
    have ha := hlog a List.mem_cons_self
    cases a with
    | deref p => exact ⟨fun hp => (List.mem_append.mp hp).elim h.1 ha, ih h.2 hrest⟩
    | free p => exact ⟨fun hp => (List.mem_append.mp hp).elim h.1 ha, ih h.2 hrest⟩

/-- **What is freed** in order is freed once, and was not freed before. -/
theorem NoneStale.nodup (h : NoneStale freed log) (hfreed : freed.Nodup) :
    (frees log ++ freed).Nodup := by
  induction log generalizing freed with
  | nil => exact hfreed
  | cons a log ih =>
    cases a with
    | deref p => exact ih h.2 hfreed
    | free p => exact (List.perm_middle.nodup_iff).mp (ih h.2 (List.nodup_cons.mpr ⟨h.1, hfreed⟩))

/-! ### Pointers of another kind -/

variable {β : Type*} {f : α → β}

/-- The same access to another pointer. -/
def Access.map (f : α → β) : Access α → Access β
  | .deref p => .deref (f p)
  | .free p => .free (f p)

@[simp] theorem Access.target_map (a : Access α) : (a.map f).target = f a.target := by
  cases a <;> rfl

@[simp] theorem frees_map : frees (log.map (Access.map f)) = (frees log).map f := by
  induction log with
  | nil => rfl
  | cons a log ih => cases a <;> simp [Access.map, ih]

/-- Nothing is confused. -/
theorem noneStale_map (hf : Function.Injective f) :
    NoneStale (freed.map f) (log.map (Access.map f)) ↔ NoneStale freed log := by
  induction log generalizing freed with
  | nil => exact Iff.rfl
  | cons a log ih =>
    cases a with
    | deref p =>
      rw [List.map_cons, Access.map, noneStale_deref, noneStale_deref, ih, List.mem_map_of_injective hf]
    | free p =>
      rw [List.map_cons, Access.map, noneStale_free, noneStale_free, ← List.map_cons, ih,
        List.mem_map_of_injective hf]

end PrismaticOS.Library
