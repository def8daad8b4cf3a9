import Mathlib.Data.Nat.Find
import Mathlib.Order.Bounds.Basic

/-!
# Positions

A search for a position in something that begins at an address returns the address of the position,
or 0 if there is none. Which position is wanted, the first one or the last one, is a parameter:
`PointsTo IsLeast` and `PointsTo IsGreatest`.
-/

namespace PrismaticOS.Library

/-- The address of the best of the positions, counted from `p`, or 0 if there is no position. -/
def PointsTo (best : Set ℕ → ℕ → Prop) (positions : Set ℕ) (p r : ℕ) : Prop :=
  (∀ k, best positions k → r = p + k) ∧ (r = 0 ↔ positions = ∅)

section
variable {best : Set ℕ → ℕ → Prop} {positions : Set ℕ} {p r k : ℕ}

theorem pointsTo_least (h : IsLeast positions k) (hp : p ≠ 0) :
    PointsTo IsLeast positions p (p + k) :=
  ⟨fun _ hj => by rw [h.unique hj],
    iff_of_false (by omega) (Set.nonempty_iff_ne_empty.mp ⟨k, h.1⟩)⟩

theorem pointsTo_greatest (h : IsGreatest positions k) (hp : p ≠ 0) :
    PointsTo IsGreatest positions p (p + k) :=
  ⟨fun _ hj => by rw [h.unique hj],
    iff_of_false (by omega) (Set.nonempty_iff_ne_empty.mp ⟨k, h.1⟩)⟩

/-- There is no position. -/
theorem pointsTo_empty (hbest : ∀ k, best positions k → k ∈ positions) (h : positions = ∅) :
    PointsTo best positions p 0 :=
  ⟨fun k hk => absurd (h ▸ hbest k hk) (Set.notMem_empty k), iff_of_true rfl h⟩

/-- There is one such address only. -/
theorem pointsTo_unique {r' : ℕ} (h : PointsTo IsLeast positions p r)
    (h' : PointsTo IsLeast positions p r') : r = r' := by
  classical
  rcases Set.eq_empty_or_nonempty positions with hempty | hsome
  · rw [h.2.mpr hempty, h'.2.mpr hempty]
  · have hleast : IsLeast positions (Nat.find hsome) :=
      ⟨Nat.find_spec hsome, fun _ hk => Nat.find_min' hsome hk⟩
    rw [h.1 _ hleast, h'.1 _ hleast]

/-- The last position, seen from the start. -/
theorem isGreatest_succ (h : IsGreatest {k | k + 1 ∈ positions} k) :
    IsGreatest positions (k + 1) := by
  refine ⟨h.1, fun j hj => ?_⟩
  cases j with
  | zero => exact Nat.zero_le _
  | succ j => exact Nat.succ_le_succ (h.2 hj)

/-- Positions that are neither the start nor farther on. -/
theorem eq_empty_of_succ (h : {k | k + 1 ∈ positions} = ∅) (h0 : 0 ∉ positions) :
    positions = ∅ := by
  refine Set.eq_empty_of_forall_notMem fun k hk => ?_
  cases k with
  | zero => exact h0 hk
  | succ k => exact Set.eq_empty_iff_forall_notMem.mp h k hk

/-- The first position, seen from the start. -/
theorem pointsTo_succ (h : PointsTo IsLeast {k | k + 1 ∈ positions} (p + 1) r)
    (h0 : 0 ∉ positions) : PointsTo IsLeast positions p r := by
  refine ⟨fun k hk => ?_, h.2.trans ⟨fun hempty => eq_empty_of_succ hempty h0, ?_⟩⟩
  · obtain ⟨j, rfl⟩ := Nat.exists_eq_add_one_of_ne_zero fun hk0 : k = 0 => h0 (hk0 ▸ hk.1)
    have hj : IsLeast {k | k + 1 ∈ positions} j :=
      ⟨hk.1, fun i hi => Nat.le_of_succ_le_succ (hk.2 hi)⟩
    rw [h.1 j hj, Nat.add_assoc, Nat.add_comm 1]
  · rintro rfl
    rfl

end

end PrismaticOS.Library
