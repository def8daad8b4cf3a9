import Mathlib.Data.Option.Basic
import Mathlib.Logic.Function.Basic

/-!
# Partial maps

Maps that are not defined everywhere, as functions to an `Option`, and what becomes of their
entries when a new one is made.
-/

namespace PrismaticOS.Library

variable {α β : Type*} {f : α → Option β} {a k : α} {b v : β}

/-- What has an entry is not new. -/
theorem ne_of_fresh (hfresh : f k = none) (h : f a = some b) : a ≠ k := by
  rintro rfl
  cases hfresh.symm.trans h

variable [DecidableEq α]

/-- A new entry leaves the others. -/
theorem update_fresh (hfresh : f k = none) (h : f a = some b) :
    Function.update f k (some v) a = some b := by
  rw [Function.update_of_ne (ne_of_fresh hfresh h), h]

/-- An entry is the new one, or was there. -/
theorem update_some_cases (h : Function.update f k (some v) a = some b) :
    (a = k ∧ b = v) ∨ (a ≠ k ∧ f a = some b) := by
  by_cases hak : a = k
  · rw [hak, Function.update_self] at h
    exact .inl ⟨hak, (Option.some.inj h).symm⟩
  · rw [Function.update_of_ne hak] at h
    exact .inr ⟨hak, h⟩

end PrismaticOS.Library
