import Mathlib.Data.List.Count
import Mathlib.Order.Bounds.Basic
import Mathlib.Order.Interval.Set.Defs

/-!
# Gaps between intervals

Half-open intervals of a linear order, in any order, which may overlap and may be empty. A value
that is in one of them moves on to its end: nothing in between is in a gap (`gapsFrom_hit`), and
fewer intervals end above it (`endsAbove_hit`). A value that is in none is the least of the gaps
(`isLeast_gapsFrom`).
-/

namespace PrismaticOS.Library

variable {α : Type*} [LinearOrder α] {spans : List (α × α)} {span : α × α} {a : α}

/-- The values from `a` on that are in none of the intervals. -/
def gapsFrom (spans : List (α × α)) (a : α) : Set α :=
  {b | a ≤ b ∧ ∀ span ∈ spans, b ∉ Set.Ico span.1 span.2}

/-- How many intervals end above `a`. -/
def endsAbove (spans : List (α × α)) (a : α) : ℕ := spans.countP fun span => decide (a < span.2)

/-- There is no gap between a value in an interval and its end. -/
theorem gapsFrom_hit (hspan : span ∈ spans) (ha : a ∈ Set.Ico span.1 span.2) :
    gapsFrom spans span.2 = gapsFrom spans a := by
  ext b
  constructor
  · rintro ⟨hle, hfree⟩
    exact ⟨ha.2.le.trans hle, hfree⟩
  · rintro ⟨hle, hfree⟩
    refine ⟨?_, hfree⟩
    by_contra hlt
    exact hfree span hspan ⟨ha.1.trans hle, not_le.mp hlt⟩

theorem endsAbove_le (spans : List (α × α)) (a : α) : endsAbove spans a ≤ spans.length :=
  List.countP_le_length

/-- Fewer intervals end above the end of one. -/
theorem endsAbove_hit (hspan : span ∈ spans) (ha : a < span.2) :
    endsAbove spans span.2 < endsAbove spans a := by
  obtain ⟨before, after, rfl⟩ := List.append_of_mem hspan
  have hmono : ∀ l : List (α × α), endsAbove l span.2 ≤ endsAbove l a := fun l =>
    List.countP_mono_left fun other _ hother =>
      decide_eq_true (ha.trans (of_decide_eq_true hother))
  have hbefore := hmono before
  have hafter := hmono after
  unfold endsAbove at hbefore hafter ⊢
  simp only [List.countP_append, List.countP_cons, decide_eq_true_eq, lt_irrefl, ha, if_true,
    if_false]
  omega

/-- A value in none of the intervals is the least of the gaps from it on. -/
theorem isLeast_gapsFrom (ha : ∀ span ∈ spans, a ∉ Set.Ico span.1 span.2) :
    IsLeast (gapsFrom spans a) a :=
  ⟨⟨le_rfl, ha⟩, fun _ hb => hb.1⟩

end PrismaticOS.Library
