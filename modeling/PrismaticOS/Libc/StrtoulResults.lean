import PrismaticOS.Libc.StrtolResults

/-!
# What `strtoul` and `strtoull` return

## The model

The number that should be returned is the one of the longest subject of the text: as it is, negated
modulo `2 ^ 64` behind a minus sign, and the largest one if it is above that (`Subject.unsigned`).

## What is proved

* `unsigned_returned` — the code returns the number, or the largest one, whatever the sign.
* `strtoul_converts_iff` — the exact condition for the two functions to be right.
* `minus_one_is_one` — the minus sign is lost.
-/

namespace PrismaticOS.Libc

open PrismaticOS.Library

/-- What an unsigned conversion of the number should be. -/
def Subject.unsigned (x : Subject) (base : ℤ) : ℕ :=
  if ulongMax < x.number base then ulongMax
  else if x.sign = [chr '-'] then wsub 64 0 (x.number base)
  else x.number base

section
variable {m : Mem} {nptr r n : ℕ} {base : ℤ} {x : Subject} {text : Str} {a : Accumulator}

/-- The number, or the limit if it is above. -/
theorem unsigned_returned {neg : Bool} {ds : List ℕ} (h : Reads ulongMax r ds a) :
    (unsignedType ulongMax).returned neg a = (min ulongMax (Nat.ofDigits r ds.reverse) : ℕ) := by
  by_cases hle : Nat.ofDigits r ds.reverse ≤ ulongMax
  · obtain ⟨hacc, hany⟩ := h.small hle
    have hnonneg : ¬ a.any < 0 := by
      rw [hany]
      split_ifs <;> decide
    rw [IntType.returned, if_neg hnonneg, Nat.min_eq_right hle, ← hacc]
    rfl
  · have hlt := Nat.lt_of_not_le hle
    have hneg : a.any < 0 := by
      rw [h.large hlt]
      decide
    rw [IntType.returned, if_pos hneg, Nat.min_eq_left hlt.le]
    rfl

/-- A number is its own negation only if it is 0 or the half. -/
theorem eq_negated_iff (h : n ≤ ulongMax) : n = wsub 64 0 n ↔ n = 0 ∨ n = 2 ^ 63 := by
  unfold ulongMax at h
  unfold wsub
  omega

/-- What is returned is right exactly if no minus sign matters. -/
theorem min_eq_unsigned_iff : min ulongMax (x.number base) = x.unsigned base ↔
    (x.sign = [chr '-'] →
      x.number base = 0 ∨ x.number base = 2 ^ 63 ∨ ulongMax < x.number base) := by
  unfold Subject.unsigned
  by_cases hlarge : ulongMax < x.number base
  · rw [if_pos hlarge, Nat.min_eq_left hlarge.le]
    exact iff_of_true rfl fun _ => .inr (.inr hlarge)
  · have hle := Nat.le_of_not_lt hlarge
    rw [if_neg hlarge, Nat.min_eq_right hle]
    by_cases hminus : x.sign = [chr '-']
    · rw [if_pos hminus, eq_negated_iff hle, ← or_assoc, or_iff_left hlarge]
      exact ⟨fun h _ => h, fun h => h hminus⟩
    · rw [if_neg hminus]
      exact iff_of_true rfl fun h => absurd h hminus

/-- **`strtoul` and `strtoull`** return what they should exactly if there is no minus sign before the
number, or it is 0, the half of the range or too large. -/
theorem strtoul_converts_iff (h : IsString m nptr text) (hend : nptr + text.length < 2 ^ 64)
    (hbase : base = 0 ∨ 2 ≤ base ∧ base ≤ 36) (hx : x.Longest base text) :
    ∀ f ∈ [strtoul, strtoull], ∃ result, f m nptr base = some result ∧
      (result.value = x.unsigned base ↔ (x.sign = [chr '-'] →
        x.number base = 0 ∨ x.number base = 2 ^ 63 ∨ ulongMax < x.number base)) := by
  obtain ⟨y, more, rfl, hy⟩ := exists_scanned hbase text
  obtain ⟨a, hreads, hconvert⟩ := convert_scanned unsigned_limit h hend hbase hy
  obtain ⟨-, hnumber⟩ := hy.longest_number hbase hx
  have hvalue : (unsignedType ulongMax).returned (decide (y.sign = [chr '-'])) a =
      (min ulongMax (x.number base) : ℕ) := by
    rw [hnumber]
    exact unsigned_returned hreads
  intro f hf
  have hboth : f = convertText (unsignedType ulongMax) := by
    simp only [List.mem_cons, List.not_mem_nil, or_false] at hf
    rcases hf with rfl | rfl <;> rfl
  rw [hboth]
  refine ⟨_, hconvert, ?_⟩
  rw [hvalue, Nat.cast_inj]
  exact min_eq_unsigned_iff

/-- The number of "-1". -/
def minusOne : Subject := ⟨[], [chr '-'], [], [chr '1']⟩

theorem minusOne_longest : minusOne.Longest 10 (str "-1") := by
  have hscanned : Scanned 10 minusOne [] := by
    refine ⟨nofun, fun c hc => ?_, by decide, nofun, .inl rfl, fun _ hallowed => ?_, fun c hc => ?_,
      nofun⟩
    · rw [← Option.some.inj hc]
      decide
    · rcases hallowed with hbase | hbase <;> cases hbase
    · rw [List.mem_singleton.mp hc]
      exact ⟨1, by decide, by decide⟩
  exact (hscanned.longest (.inr (by decide)) (List.cons_ne_nil _ _)).1

/-- A minus sign that matters. -/
theorem strtoul_converts_minus :
    (IsString (fun a => (str "-1").getD (a - 8) 0) 8 (str "-1") ∧
      minusOne.Longest 10 (str "-1")) ∧
    ∀ f ∈ [strtoul, strtoull], ∃ result, f (fun a => (str "-1").getD (a - 8) 0) 8 10 = some result ∧
      (result.value = minusOne.unsigned 10 ↔ (minusOne.sign = [chr '-'] →
        minusOne.number 10 = 0 ∨ minusOne.number 10 = 2 ^ 63 ∨ ulongMax < minusOne.number 10)) := by
  have hstring : IsString (fun a => (str "-1").getD (a - 8) 0) 8 (str "-1") :=
    IsString.of_getD (by decide) (by decide)
  exact ⟨⟨hstring, minusOne_longest⟩,
    strtoul_converts_iff hstring (by decide) (.inr (by decide)) minusOne_longest⟩

/-- "-1" is converted to 1, and not to the largest number. -/
theorem minus_one_is_one :
    (minusOne.Longest 10 (str "-1") ∧ minusOne.unsigned 10 = 2 ^ 64 - 1) ∧
    (∃ result, strtoul (fun a => (str "-1").getD (a - 8) 0) 8 10 = some result ∧
      result.value = 1) ∧
    ∃ result, strtoull (fun a => (str "-1").getD (a - 8) 0) 8 10 = some result ∧
      result.value = 1 := by
  have hrun : (strtoul (fun a => (str "-1").getD (a - 8) 0) 8 10).map Converted.value = some 1 := by
    decide +kernel
  have hone := Option.map_eq_some_iff.mp hrun
  exact ⟨⟨minusOne_longest, by decide⟩, hone, hone⟩

end

end PrismaticOS.Libc
