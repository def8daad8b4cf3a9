import Mathlib.Order.Bounds.Basic
import Mathlib.Tactic.IntervalCases
import PrismaticOS.Library.ZeroBytes

/-!
# `strlen`

`strlen` of `libc/src/string/strlen.c`. It goes to an aligned address byte by byte, and on from
there in words of eight bytes; the first word with a zero byte is the last one.

## The model

`strlen` returns the length and the addresses of all bytes that it loads. A zero byte is the first
one from `s` on if its distance from `s` is the least one. The loop over the words is `none` if it
needs more turns than there are addresses.

## What is proved

* `firstZero_eq` — the tests of one word.
* `strlen_eq` — the length, and what is loaded.
* `strlen_least` — the length is the distance of the first zero byte.
* `strlen_loads_iff` — the exact condition for all loads to be from words with bytes of the string.
* `loads_beyond_page` — an empty string at the end of a page.
-/

namespace PrismaticOS.Libc

open PrismaticOS.Library

/-! ### The function -/

/-- The loop to an aligned address: where it stops, and the bytes that it loads. -/
def alignLoop (m : Mem) (p : ℕ) : ℕ × List ℕ :=
  if p &&& 7 ≠ 0 then
    if m p ≠ 0 then ((alignLoop m (p + 1)).1, p :: (alignLoop m (p + 1)).2) else (p, [p])
  else (p, [])
termination_by (8 - p % 8) % 8
decreasing_by
  have hp : p &&& 7 = p % 8 := Nat.and_two_pow_sub_one_eq_mod p 3
  omega

/-- Which byte of a word is zero: the tests of one turn. -/
def firstZero (word : UInt64) : Option ℕ :=
  if (word - 0x0101010101010101) &&& ~~~ word &&& 0x8080808080808080 ≠ 0 then
    if word &&& 0xFF = 0 then some 0
    else if word &&& 0xFF00 = 0 then some 1
    else if word &&& 0xFF0000 = 0 then some 2
    else if word &&& 0xFF000000 = 0 then some 3
    else if word &&& 0xFF00000000 = 0 then some 4
    else if word &&& 0xFF0000000000 = 0 then some 5
    else if word &&& 0xFF000000000000 = 0 then some 6
    else if word &&& 0xFF00000000000000 = 0 then some 7
    else none
  else none

/-- The result of `strlen`. -/
structure Strlen where
  /-- What it returns. -/
  length : ℕ
  /-- The addresses of the bytes that are loaded. -/
  loads : List ℕ

/-- The loop over the words. -/
def wordLoop (m : Mem) (s : ℕ) : ℕ → ℕ → Option Strlen
  | 0, _ => none
  | steps + 1, p =>
    match firstZero (loadWord64 m p) with
    | some i => some ⟨p - s + i, List.range' p 8⟩
    | none => (wordLoop m s steps (p + 8)).map fun r => ⟨r.length, List.range' p 8 ++ r.loads⟩

/-- `strlen`. -/
def strlen (m : Mem) (s : ℕ) : Option Strlen :=
  (wordLoop m s addresses (alignLoop m s).1).map fun r => ⟨r.length, (alignLoop m s).2 ++ r.loads⟩

section
variable {m : Mem} {s p n d : ℕ}

/-! ### One word -/

/-- The distance from an address farther on. -/
theorem isLeast_shift {k : ℕ} (h : IsLeast {i | m (p + i) = 0} (k + n)) :
    IsLeast {i | m (p + k + i) = 0} n := by
  refine ⟨?_, fun i hi => ?_⟩
  · rw [Set.mem_ofPred_eq, Nat.add_assoc]
    exact h.1
  · rw [Set.mem_ofPred_eq, Nat.add_assoc] at hi
    exact Nat.le_of_add_le_add_left (h.2 hi)

theorem not_zero_of_lt (h : IsLeast {i | m (p + i) = 0} n) {i : ℕ} (hi : i < n) :
    ¬ m (p + i) = 0 := fun h0 => (h.2 h0).not_gt hi

/-- **The tests of one word** find its first zero byte. -/
theorem firstZero_eq (h : IsLeast {i | m (p + i) = 0} d) :
    firstZero (loadWord64 m p) = if d < 8 then some d else none := by
  have hfirst (i : ℕ) (hi : i ≤ d) : m (p + i) = 0 ↔ i = d :=
    ⟨fun h0 => hi.antisymm (h.2 h0), fun heq => heq ▸ h.1⟩
  unfold firstZero
  simp only [zeroByte_word, byte_word m p 0 0xFF (by decide) rfl,
    byte_word m p 1 0xFF00 (by decide) rfl, byte_word m p 2 0xFF0000 (by decide) rfl,
    byte_word m p 3 0xFF000000 (by decide) rfl, byte_word m p 4 0xFF00000000 (by decide) rfl,
    byte_word m p 5 0xFF0000000000 (by decide) rfl,
    byte_word m p 6 0xFF000000000000 (by decide) rfl,
    byte_word m p 7 0xFF00000000000000 (by decide) rfl]
  by_cases hd : d < 8
  · rw [if_pos ⟨d, hd, h.1⟩, if_pos hd]
    interval_cases d <;> simp only [hfirst, Nat.reduceLeDiff, Nat.reduceEqDiff, reduceIte]
  · have hnone : ¬ ∃ i < 8, m (p + i) = 0 := fun ⟨i, hi, h0⟩ => hd ((h.2 h0).trans_lt hi)
    rw [if_neg hnone, if_neg hd]

/-! ### The loops -/

/-- The loop over the words stops in the word with the first zero byte. -/
theorem wordLoop_eq {steps : ℕ} (h : IsLeast {i | m (p + i) = 0} d) (hp : s ≤ p)
    (hsteps : d / 8 < steps) :
    wordLoop m s steps p = some ⟨p - s + d, List.range' p (8 * (d / 8 + 1))⟩ := by
  induction steps generalizing p d with
  | zero => exact absurd hsteps (Nat.not_lt_zero _)
  | succ steps ih =>
    rw [wordLoop, firstZero_eq h]
    by_cases hd : d < 8
    · rw [if_pos hd, Nat.div_eq_of_lt hd]
    · obtain ⟨k, rfl⟩ := Nat.exists_eq_add_of_le (Nat.le_of_not_lt hd)
      have hwords : 8 * ((8 + k) / 8 + 1) = 8 + 8 * (k / 8 + 1) := by omega
      have hrest := ih (isLeast_shift h) (by omega) (by omega)
      rw [if_neg hd, hwords, ← List.range'_append_1]
      simp only [hrest, Option.map_some]
      congr 2
      omega

/-- The loop to an aligned address stops there, or at the first zero byte. -/
theorem alignLoop_eq (h : IsLeast {i | m (p + i) = 0} n) :
    (alignLoop m p).1 = p + min n ((8 - p % 8) % 8) ∧
      ∀ a ∈ (alignLoop m p).2, p ≤ a ∧ a ≤ p + n := by
  induction n generalizing p with
  | zero =>
    have hzero : ¬ m p ≠ 0 := not_not.mpr h.1
    rw [alignLoop, if_neg hzero, Nat.zero_min, Nat.add_zero]
    split_ifs
    · exact ⟨rfl, fun a ha => by rw [List.mem_singleton.mp ha]; exact ⟨le_rfl, le_rfl⟩⟩
    · exact ⟨rfl, nofun⟩
  | succ n ih =>
    have hp : p &&& 7 = p % 8 := Nat.and_two_pow_sub_one_eq_mod p 3
    have hbyte : m p ≠ 0 := not_zero_of_lt h (Nat.succ_pos n)
    rw [Nat.add_comm n] at h
    obtain ⟨hstop, hloads⟩ := ih (isLeast_shift h)
    rw [alignLoop, if_pos hbyte, hp]
    split_ifs with haligned
    · refine ⟨by rw [hstop]; omega, fun a ha => ?_⟩
      rcases List.mem_cons.mp ha with rfl | ha
      · exact ⟨le_rfl, Nat.le_add_right ..⟩
      · have hbetween := hloads a ha
        omega
    · refine ⟨by rw [not_not.mp haligned]; rfl, nofun⟩

/-! ### `strlen` -/

/-- What `strlen` returns, and what it loads. -/
theorem strlen_eq (h : IsLeast {i | m (s + i) = 0} n) (hs : s + n < 2 ^ 64) {k : ℕ}
    (hk : k = min n ((8 - s % 8) % 8)) : strlen m s = some ⟨n,
      (alignLoop m s).2 ++ List.range' (s + k) (8 * ((n - k) / 8 + 1))⟩ := by
  obtain ⟨d, hd⟩ := Nat.exists_eq_add_of_le (show k ≤ n by omega)
  have hsteps : d / 8 < addresses := lt_addresses (by omega)
  have hwords := wordLoop_eq (isLeast_shift (hd ▸ h)) (Nat.le_add_right s k) hsteps
  rw [strlen, (alignLoop_eq h).1, ← hk, hwords, Option.map_some, hd, Nat.add_sub_cancel_left,
    Nat.add_sub_cancel_left]

/-- **`strlen`** returns the distance of the first zero byte, whatever the alignment and whatever
comes after it. -/
theorem strlen_least (h : IsLeast {i | m (s + i) = 0} n) (hs : s + n < 2 ^ 64) :
    (strlen m s).map Strlen.length = some n := by
  rw [strlen_eq h hs rfl, Option.map_some]

/-- A string of two bytes at an address that is not aligned. -/
theorem strlen_least_unaligned :
    (IsLeast {i | (fun a => if a < 5 then 255 else 0 : Mem) (3 + i) = 0} 2 ∧ 3 + 2 < 2 ^ 64) ∧
      (strlen (fun a => if a < 5 then 255 else 0) 3).map Strlen.length = some 2 := by
  have h : IsLeast {i | (fun a => if a < 5 then 255 else 0 : Mem) (3 + i) = 0} 2 := by
    refine ⟨rfl, fun i hi => ?_⟩
    by_contra hlt
    exact absurd ((if_pos (by omega)).symm.trans hi) (by decide)
  exact ⟨⟨h, by decide⟩, strlen_least h (by decide)⟩

/-- **What `strlen` loads** is in the aligned words of the string and its terminator exactly if the
loop before the words reaches an aligned address. -/
theorem strlen_loads_iff (h : IsLeast {i | m (s + i) = 0} n) (hs : s + n < 2 ^ 64) :
    ∃ r, strlen m s = some r ∧
      ((∀ a ∈ r.loads, ∃ i ≤ n, (s + i) / 8 = a / 8) ↔ s % 8 = 0 ∨ 8 ≤ s % 8 + n) := by
  refine ⟨_, strlen_eq h hs rfl, ?_⟩
  simp only [List.mem_append, List.mem_range'_1]
  constructor
  · intro hloads
    by_contra hunaligned
    obtain ⟨hs8, hshort⟩ := not_or.mp hunaligned
    -- the word at the terminator ends in the next aligned word
    have hlast := hloads (s + n + 7) (.inr (by omega))
    obtain ⟨i, hi, hsame⟩ := hlast
    omega
  · rintro haligned a (ha | ha)
    · have hbetween := (alignLoop_eq h).2 a ha
      exact ⟨a - s, by omega, by rw [Nat.add_sub_of_le hbetween.1]⟩
    · generalize hk : min n ((8 - s % 8) % 8) = k at ha
      have hkn : k ≤ n ∧ (s + k) % 8 = 0 := by omega
      exact ⟨k + 8 * ((a - (s + k)) / 8), by omega, by omega⟩

/-- The empty string in the last byte of a page: bytes of the next page are loaded. -/
theorem loads_beyond_page : ∃ r, strlen (fun _ => 0) 4095 = some r ∧ 4096 ∈ r.loads ∧
    ¬ ∀ a ∈ r.loads, ∃ i ≤ 0, (4095 + i) / 8 = a / 8 := by
  have hempty : IsLeast {i | (fun _ => 0 : Mem) (4095 + i) = 0} 0 := ⟨rfl, fun i _ => Nat.zero_le i⟩
  have hnext : 4096 ∈ (alignLoop (fun _ => 0) 4095).2 ++ List.range' (4095 + 0) 8 :=
    List.mem_append_right _ (by decide)
  refine ⟨_, strlen_eq hempty (by decide) rfl, hnext, fun hloads => ?_⟩
  obtain ⟨i, hi, hsame⟩ := hloads 4096 hnext
  omega

/-- A string of nine bytes at an address that is not aligned. -/
theorem strlen_loads_long : ∃ r, strlen (fun a => if a < 12 then 1 else 0) 3 = some r ∧
    ((∀ a ∈ r.loads, ∃ i ≤ 9, (3 + i) / 8 = a / 8) ↔ 3 % 8 = 0 ∨ 8 ≤ 3 % 8 + 9) := by
  refine strlen_loads_iff ⟨rfl, fun i hi => ?_⟩ (by decide)
  by_contra hlt
  exact absurd ((if_pos (by omega)).symm.trans hi) (by decide)

end

end PrismaticOS.Libc
