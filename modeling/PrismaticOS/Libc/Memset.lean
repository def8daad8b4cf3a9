import Mathlib.Order.Nat
import PrismaticOS.Libc.Ctype
import PrismaticOS.Library.Memory
import PrismaticOS.Library.Words

/-!
# `memset` and `memcmp`

Two functions of `libc/src/string/memcpy.c`. `memset` sets bytes until the pointer is aligned, then
words of eight bytes, then what is left. `memcmp` compares words, and the bytes of the first two
words that differ, and then the bytes that are left.

## The model

A word is the little-endian number of its eight bytes. `memset` returns the memory and the pointer.

## What is proved

* `value64_bytes` — all bytes of the word are the value.
* `memset_eq` — `memset` is the ideal fill (`fillBytes`).
* `cmpWords_eq` — the words do not matter to what `memcmp` returns.
* `memset_memcmp_bytewise` — the two functions by the byte.
-/

namespace PrismaticOS.Libc

open PrismaticOS.Library

/-! ### `memset` -/

/-- `while (n--) *p++ = value;` -/
def setUp (value : UInt8) : ℕ → Mem → ℕ → Mem
  | 0, m, _ => m
  | n + 1, m, p => setUp value n (Function.update m p value) (p + 1)

/-- `value64`: the value in each of eight bytes. -/
def value64 (value : UInt8) : ℕ :=
  value.toNat <<< 56 ||| value.toNat <<< 48 ||| value.toNat <<< 40 ||| value.toNat <<< 32 |||
    value.toNat <<< 24 ||| value.toNat <<< 16 ||| value.toNat <<< 8 ||| value.toNat

/-- The loop over the words, and the bytes that remain. -/
def setWords (value : UInt8) (m : Mem) (p n : ℕ) : Mem :=
  if 8 ≤ n then setWords value (storeLE m p 8 (value64 value)) (p + 8) (n - 8)
  else setUp value n m p

/-- The loop that aligns the pointer, and the words. -/
def setAligned (value : UInt8) : ℕ → Mem → ℕ → Mem
  | 0, m, p => setWords value m p 0
  | n + 1, m, p =>
    if p &&& 7 ≠ 0 then setAligned value n (Function.update m p value) (p + 1)
    else setWords value m p (n + 1)

/-- `memset`. -/
def memset (m : Mem) (s : ℕ) (c : Int32) (n : ℕ) : Mem × ℕ :=
  (setAligned c.toUInt32.toUInt8 n m s, s)

/-! ### `memcmp` -/

/-- The loops over bytes: the difference of the first two that differ. -/
def firstDifference (m : Mem) : ℕ → ℕ → ℕ → Option ℤ
  | 0, _, _ => none
  | n + 1, p1, p2 =>
    if m p1 ≠ m p2 then some ((m p1).toNat - (m p2).toNat)
    else firstDifference m n (p1 + 1) (p2 + 1)

/-- Two words, and their bytes if they differ. -/
def cmpWord (m : Mem) (p1 p2 : ℕ) : Option ℤ :=
  if loadLE m p1 8 ≠ loadLE m p2 8 then firstDifference m 8 p1 p2 else none

/-- The loop over the words, and the bytes that remain. -/
def cmpWords (m : Mem) (p1 p2 n : ℕ) : ℤ :=
  if 8 ≤ n then (cmpWord m p1 p2).getD (cmpWords m (p1 + 8) (p2 + 8) (n - 8))
  else (firstDifference m n p1 p2).getD 0

/-- `memcmp`. -/
def memcmp (m : Mem) (s1 s2 n : ℕ) : ℤ := cmpWords m s1 s2 n

section
variable {m : Mem} {p p1 p2 n i : ℕ} {value : UInt8}

/-! ### Filling -/

/-- **All bytes of the word** are the value. -/
theorem value64_bytes (value : UInt8) : ∀ i < 8, value64 value / 256 ^ i % 256 = value.toNat := by
  have hall : ∀ v < 256, ∀ i < 8, (v <<< 56 ||| v <<< 48 ||| v <<< 40 ||| v <<< 32 ||| v <<< 24 |||
      v <<< 16 ||| v <<< 8 ||| v) / 256 ^ i % 256 = v := by decide +kernel
  exact hall value.toNat value.toNat_lt

theorem setUp_eq (m : Mem) : setUp value n m p = fillBytes m p n value := by
  induction n generalizing m p with
  | zero => rw [setUp, fillBytes_zero]
  | succ n ih => rw [setUp, ← fillBytes_one, ih, fillBytes_append, Nat.add_comm 1]

theorem setWords_eq (m : Mem) : setWords value m p n = fillBytes m p n value := by
  induction n using Nat.strongRecOn generalizing m p with
  | ind n ih =>
    rw [setWords]
    split_ifs with hword
    · rw [storeLE_eq_fillBytes m p (value64_bytes value), ih (n - 8) (by omega), fillBytes_append,
        Nat.add_sub_of_le hword]
    · exact setUp_eq m

theorem setAligned_eq (m : Mem) : setAligned value n m p = fillBytes m p n value := by
  induction n generalizing m p with
  | zero => exact setWords_eq m
  | succ n ih =>
    rw [setAligned]
    split_ifs with halign
    · rw [← fillBytes_one, ih, fillBytes_append, Nat.add_comm 1]
    · exact setWords_eq m

/-- **`memset` is the ideal fill.** -/
theorem memset_eq (m : Mem) (s : ℕ) (c : Int32) (n : ℕ) :
    memset m s c n = (fillBytes m s n c.toUInt32.toUInt8, s) := by
  rw [memset, setAligned_eq]

/-! ### Comparing -/

theorem firstDifference_none : firstDifference m n p1 p2 = none ↔
    ∀ i < n, m (p1 + i) = m (p2 + i) := by
  induction n generalizing p1 p2 with
  | zero => exact iff_of_true rfl nofun
  | succ n ih =>
    rw [firstDifference]
    by_cases hfirst : m p1 = m p2
    · rw [if_neg (not_not.mpr hfirst), ih]
      constructor
      · intro h i hi
        cases i with
        | zero => exact hfirst
        | succ i =>
          have hnext := h i (Nat.lt_of_succ_lt_succ hi)
          rwa [Nat.add_right_comm p1, Nat.add_right_comm p2] at hnext
      · intro h i hi
        rw [Nat.add_right_comm p1, Nat.add_right_comm p2]
        exact h (i + 1) (Nat.succ_lt_succ hi)
    · rw [if_pos hfirst]
      exact iff_of_false nofun fun h => hfirst (h 0 (Nat.succ_pos n))

/-- The bytes in two parts. -/
theorem firstDifference_add (m : Mem) (k n p1 p2 : ℕ) : firstDifference m (k + n) p1 p2 =
    (firstDifference m k p1 p2).or (firstDifference m n (p1 + k) (p2 + k)) := by
  induction k generalizing p1 p2 with
  | zero => rw [Nat.zero_add]; rfl
  | succ k ih =>
    rw [Nat.add_right_comm, firstDifference, firstDifference]
    split_ifs with hfirst
    · rfl
    · rw [ih, Nat.add_right_comm p1, Nat.add_right_comm p2]
      rfl

/-- The words are the same if their bytes are. -/
theorem cmpWord_eq (m : Mem) (p1 p2 : ℕ) : cmpWord m p1 p2 = firstDifference m 8 p1 p2 := by
  rw [cmpWord]
  split_ifs with hword
  · rfl
  · rw [not_not, loadLE_eq_iff] at hword
    exact (firstDifference_none.mpr hword).symm

/-- **The words do not matter.** -/
theorem cmpWords_eq (m : Mem) (p1 p2 n : ℕ) :
    cmpWords m p1 p2 n = (firstDifference m n p1 p2).getD 0 := by
  induction n using Nat.strongRecOn generalizing p1 p2 with
  | ind n ih =>
    rw [cmpWords]
    split_ifs with hword
    · rw [cmpWord_eq]
      obtain ⟨k, rfl⟩ := Nat.exists_eq_add_of_le hword
      rw [firstDifference_add, Nat.add_sub_cancel_left]
      cases hfirst : firstDifference m 8 p1 p2 with
      | none => exact ih k (by omega) _ _
      | some difference => rfl
    · rfl

/-- The first difference. -/
theorem firstDifference_some (h : IsLeast {i | i < n ∧ m (p1 + i) ≠ m (p2 + i)} i) :
    firstDifference m n p1 p2 = some ((m (p1 + i)).toNat - (m (p2 + i)).toNat : ℤ) := by
  obtain ⟨⟨hi, hne⟩, hleast⟩ := h
  obtain ⟨k, rfl⟩ := Nat.exists_eq_add_of_le hi.le
  obtain ⟨k, rfl⟩ := Nat.exists_eq_add_one.mpr (Nat.lt_add_right_iff_pos.mp hi)
  have hsame : ∀ j < i, m (p1 + j) = m (p2 + j) := by
    intro j hj
    by_contra hdiff
    exact absurd (hleast ⟨hj.trans hi, hdiff⟩) (Nat.not_le_of_lt hj)
  rw [firstDifference_add, firstDifference_none.mpr hsame, firstDifference, if_pos hne]
  rfl

/-- A difference is not 0. -/
theorem difference_ne_zero {a b : UInt8} (h : a ≠ b) : (a.toNat : ℤ) - b.toNat ≠ 0 := by
  intro hzero
  exact h (UInt8.toNat_inj.mp (Int.ofNat_inj.mp (Int.sub_eq_zero.mp hzero)))

/-- **`memset` and `memcmp` by the byte**, whatever the alignment: the one sets the bytes it is given
and no others, the other returns 0 for equal bytes and the difference of the first two that differ
otherwise. -/
theorem memset_memcmp_bytewise (m : Mem) (n : ℕ) :
    (∀ s c, (∀ i < n, (memset m s c n).1 (s + i) = c.toUInt32.toUInt8) ∧
      Set.EqOn (memset m s c n).1 m (Set.Ico s (s + n))ᶜ ∧ (memset m s c n).2 = s) ∧
    ∀ s1 s2, (memcmp m s1 s2 n = 0 ↔ ∀ i < n, m (s1 + i) = m (s2 + i)) ∧
      ∀ i, IsLeast {i | i < n ∧ m (s1 + i) ≠ m (s2 + i)} i →
        memcmp m s1 s2 n = (m (s1 + i)).toNat - (m (s2 + i)).toNat := by
  refine ⟨fun s c => ?_, fun s1 s2 => ⟨?_, fun i hi => ?_⟩⟩
  · rw [memset_eq]
    refine ⟨fun i hi => ?_, fillBytes_eqOn m s n _, rfl⟩
    exact if_pos (by omega)
  · by_cases hsame : ∀ i < n, m (s1 + i) = m (s2 + i)
    · rw [memcmp, cmpWords_eq, firstDifference_none.mpr hsame]
      exact iff_of_true rfl hsame
    · have hsome : ∃ i, i < n ∧ m (s1 + i) ≠ m (s2 + i) := by
        simpa only [not_forall, exists_prop] using hsame
      have hleast := Nat.isLeast_find hsome
      rw [memcmp, cmpWords_eq, firstDifference_some hleast]
      exact iff_of_false (difference_ne_zero hleast.1.2) hsame
  · rw [memcmp, cmpWords_eq, firstDifference_some hi]
    rfl

end

end PrismaticOS.Libc
