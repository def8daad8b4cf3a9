import Mathlib.Data.List.Basic

/-!
# Padding

Lists that are made longer with one element, on the left or on the right.

## What is proved

* `eq_of_shift` — a list that is a part of itself behind some `c` has nothing else.
* `padLeft_append_iff` — when padding can go behind the beginning of a list.
* `take_eq_padLeft_iff`, `take_eq_padRight_iff` — when elements `c` and a part of a list are the list
  with padding on the left or on the right.
-/

namespace PrismaticOS.Library

variable {α : Type*} {c x : α} {width m k : ℕ} {l : List α}

/-- On the left. -/
def padLeft (c : α) (width : ℕ) (l : List α) : List α := List.replicate (width - l.length) c ++ l

/-- On the right. -/
def padRight (c : α) (width : ℕ) (l : List α) : List α := l ++ List.replicate (width - l.length) c

@[simp]
theorem length_padLeft (c : α) (width : ℕ) (l : List α) :
    (padLeft c width l).length = max width l.length := by
  simp only [padLeft, List.length_append, List.length_replicate]
  omega

@[simp]
theorem length_padRight (c : α) (width : ℕ) (l : List α) :
    (padRight c width l).length = max width l.length := by
  simp only [padRight, List.length_append, List.length_replicate]
  omega

theorem padLeft_of_le (h : width ≤ l.length) : padLeft c width l = l := by
  rw [padLeft, Nat.sub_eq_zero_of_le h, List.replicate_zero, List.nil_append]

theorem padRight_of_le (h : width ≤ l.length) : padRight c width l = l := by
  rw [padRight, Nat.sub_eq_zero_of_le h, List.replicate_zero, List.append_nil]

theorem mem_of_mem_padLeft (h : x ∈ padLeft c width l) : x = c ∨ x ∈ l :=
  (List.mem_append.mp h).imp_left List.eq_of_mem_replicate

theorem mem_of_mem_padRight (h : x ∈ padRight c width l) : x = c ∨ x ∈ l :=
  (List.mem_append.mp h).symm.imp_left List.eq_of_mem_replicate

/-- The last element of what is padded on the left. -/
theorem getLast?_padLeft (h : l ≠ []) : (padLeft c width l).getLast? = l.getLast? := by
  rw [padLeft, List.getLast?_append_of_ne_nil _ h]

/-- The last element where there is padding on the right. -/
theorem getLast?_padRight (h : l.length < width) : (padRight c width l).getLast? = some c := by
  have hne : width - l.length ≠ 0 := Nat.sub_ne_zero_of_lt h
  rw [padRight, List.getLast?_append, List.getLast?_replicate, if_neg hne, Option.some_or]

/-- Padding behind the beginning of a list. -/
theorem padLeft_append {s : List α} (h : s = [] ∨ width ≤ l.length) :
    padLeft c width (s ++ l) = s ++ padLeft c width l := by
  rcases h with rfl | h
  · rfl
  · rw [padLeft_of_le h, padLeft_of_le]
    rw [List.length_append]
    omega

/-- **Padding behind the beginning of a list** is padding in front, also behind something else, only
if there is no beginning or no padding. -/
theorem padLeft_append_iff {s : List α} (before before' : List α) (hc : c ∉ s)
    (h : before ++ padLeft c width (s ++ l) = before' ++ (s ++ padLeft c width l)) :
    s = [] ∨ width ≤ l.length := by
  by_contra hcon
  rw [not_or, Nat.not_le] at hcon
  obtain ⟨hs, hlt⟩ := hcon
  have hne : List.replicate (width - l.length) c ≠ [] := by
    rw [ne_eq, List.replicate_eq_nil_iff]
    omega
  -- what is in front of the list ends with the beginning on the left, with padding on the right
  rw [padLeft, padLeft] at h
  simp only [← List.append_assoc] at h
  have hlast := congrArg List.getLast? (List.append_cancel_right h)
  rw [List.getLast?_append_of_ne_nil _ hs, List.getLast?_append_of_ne_nil _ hne,
    List.getLast?_replicate, if_neg (by omega)] at hlast
  exact hc (List.mem_of_getLast? hlast)

/-- **A list that is a part of itself behind some `c`** has nothing else. -/
theorem eq_of_shift (hm : 0 < m) (h : l = List.replicate m c ++ l.take k) : ∀ x ∈ l, x = c := by
  have hat : ∀ i < l.length, l[i]? = some c := by
    intro i
    induction i using Nat.strongRecOn with
    | ind i ih =>
      intro hi
      by_cases hlt : i < m
      · have hrep : i < (List.replicate m c).length := by rwa [List.length_replicate]
        rw [h, List.getElem?_append_left hrep, List.getElem?_replicate, if_pos hlt]
      · -- it is further to the front, too
        have hrep : (List.replicate m c).length ≤ i := by
          rw [List.length_replicate]
          exact Nat.not_lt.mp hlt
        have hlen := congrArg List.length h
        rw [List.length_append, List.length_replicate, List.length_take] at hlen
        have hk : i - m < k := by omega
        rw [h, List.getElem?_append_right hrep, List.length_replicate, List.getElem?_take, if_pos hk]
        exact ih (i - m) (by omega) (by omega)
  intro x hx
  obtain ⟨i, hi, rfl⟩ := List.getElem_of_mem hx
  have hsome := hat i hi
  rw [List.getElem?_eq_getElem hi] at hsome
  exact Option.some.inj hsome

/-- Only one element, and so many. -/
theorem eq_replicate_of_all {n : ℕ} (hall : ∀ x ∈ l, x = c) (hn : l.length = n) :
    l = List.replicate n c :=
  List.eq_replicate_iff.mpr ⟨hn, hall⟩

theorem length_replicate_append_take (c : α) (m : ℕ) (hk : k ≤ l.length) :
    (List.replicate m c ++ l.take k).length = m + k := by
  rw [List.length_append, List.length_replicate, List.length_take, Nat.min_eq_left hk]

theorem replicate_append_take_all (hall : ∀ x ∈ l, x = c) :
    ∀ x ∈ List.replicate m c ++ l.take k, x = c := by
  intro x hx
  rcases List.mem_append.mp hx with hx | hx
  · exact List.eq_of_mem_replicate hx
  · exact hall x (List.mem_of_mem_take hx)

/-- **A part of a list behind some `c`**, and the list with padding on the left. -/
theorem take_eq_padLeft_iff (hk : k ≤ l.length) :
    List.replicate m c ++ l.take k = padLeft c width l ↔
      (k = l.length ∧ m = width - l.length) ∨ (∀ x ∈ l, x = c) ∧ m + k = max width l.length := by
  constructor
  · intro h
    have hlen := congrArg List.length h
    rw [length_replicate_append_take c m hk, length_padLeft] at hlen
    by_cases hfull : k = l.length
    · exact .inl ⟨hfull, by omega⟩
    · refine .inr ⟨?_, hlen⟩
      -- the list begins with more of them
      have hsplit : m = (width - l.length) + (m - (width - l.length)) := by omega
      rw [padLeft, hsplit, List.replicate_add, List.append_assoc] at h
      exact eq_of_shift (by omega) (List.append_cancel_left h).symm
  · rintro (⟨rfl, rfl⟩ | ⟨hall, hlen⟩)
    · rw [List.take_length, padLeft]
    · have hpad : ∀ x ∈ padLeft c width l, x = c :=
        fun x hx => (mem_of_mem_padLeft hx).elim id (hall x)
      rw [eq_replicate_of_all hpad (length_padLeft c width l), ← hlen]
      exact eq_replicate_of_all (replicate_append_take_all hall) (length_replicate_append_take c m hk)

/-- **A part of a list behind some `c`**, and the list with padding on the right. -/
theorem take_eq_padRight_iff (hk : k ≤ l.length) :
    List.replicate m c ++ l.take k = padRight c width l ↔
      (k = l.length ∧ m = 0 ∧ width ≤ l.length) ∨
        (∀ x ∈ l, x = c) ∧ m + k = max width l.length := by
  constructor
  · intro h
    have hlen := congrArg List.length h
    rw [length_replicate_append_take c m hk, length_padRight] at hlen
    rcases Nat.eq_zero_or_pos m with rfl | hm
    · exact .inl ⟨by omega, rfl, by omega⟩
    · refine .inr ⟨fun x hx => ?_, hlen⟩
      have htake : l.take k = (padRight c width l).take k := by
        rw [padRight, List.take_append_of_le_length hk]
      rw [htake] at h
      exact eq_of_shift hm h.symm x (List.mem_append_left _ hx)
  · rintro (⟨rfl, rfl, hwidth⟩ | ⟨hall, hlen⟩)
    · rw [List.take_length, padRight_of_le hwidth]
      rfl
    · have hpad : ∀ x ∈ padRight c width l, x = c :=
        fun x hx => (mem_of_mem_padRight hx).elim id (hall x)
      rw [eq_replicate_of_all hpad (length_padRight c width l), ← hlen]
      exact eq_replicate_of_all (replicate_append_take_all hall) (length_replicate_append_take c m hk)

end PrismaticOS.Library
