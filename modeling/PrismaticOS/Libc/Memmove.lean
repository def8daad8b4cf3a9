import PrismaticOS.Library.Memory
import PrismaticOS.Library.Words

/-!
# `memcpy` and `memmove`

The two functions of `libc/src/string/memcpy.c`. `memcpy` copies bytes until the destination is
aligned, then words of eight bytes, then what is left. `memmove` uses it if the destination is not
inside the source or below it, and copies from the end otherwise.

## The model

A word is the little-endian number of its eight bytes. A function returns the memory and the
pointer.

## What is proved

* `memcpy_eq` — `memcpy` is the ideal move (`copyBytes`) if the destination is below the source or
  behind it.
* `memmove_ideal` — `memmove` always is.
-/

namespace PrismaticOS.Libc

open PrismaticOS.Library

/-! ### The functions -/

/-- `while (n--) *d++ = *s++;` -/
def copyUp : ℕ → Mem → ℕ → ℕ → Mem
  | 0, m, _, _ => m
  | n + 1, m, d, s => copyUp n (Function.update m d (m s)) (d + 1) (s + 1)

/-- The loop over the words, and the bytes that remain. -/
def copyWords (m : Mem) (d s n : ℕ) : Mem :=
  if 8 ≤ n then copyWords (storeLE m d 8 (loadLE m s 8)) (d + 8) (s + 8) (n - 8)
  else copyUp n m d s

/-- The loop that aligns the destination, and the words. -/
def copyAligned : ℕ → Mem → ℕ → ℕ → Mem
  | 0, m, d, s => copyWords m d s 0
  | n + 1, m, d, s =>
    if d &&& 7 ≠ 0 then copyAligned n (Function.update m d (m s)) (d + 1) (s + 1)
    else copyWords m d s (n + 1)

/-- `memcpy`. -/
def memcpy (m : Mem) (dest src n : ℕ) : Mem × ℕ :=
  if n < 8 then (copyUp n m dest src, dest) else (copyAligned n m dest src, dest)

/-- `while (n--) *d-- = *s--;` -/
def copyDown : ℕ → Mem → ℕ → ℕ → Mem
  | 0, m, _, _ => m
  | n + 1, m, d, s => copyDown n (Function.update m d (m s)) (d - 1) (s - 1)

/-- `memmove`. -/
def memmove (m : Mem) (dest src n : ℕ) : Mem × ℕ :=
  if dest ≤ src ∨ wrap 64 (src + n) ≤ dest then memcpy m dest src n
  else (copyDown n m (dest + n - 1) (src + n - 1), dest)

section
variable {m : Mem} {d s n : ℕ}

/-! ### The loops -/

theorem copyUp_eq (m : Mem) (h : d ≤ s ∨ s + n ≤ d) : copyUp n m d s = copyBytes m d s n := by
  induction n generalizing m d s with
  | zero => rw [copyUp, copyBytes_zero]
  | succ n ih =>
    have hup : d ≤ s ∨ s + (1 + n) ≤ d := by omega
    rw [copyUp, ← copyBytes_one, ih _ (by omega), copyBytes_append m hup, Nat.add_comm 1]

/-- A word is loaded before it is stored: whether its bytes overlap does not matter. -/
theorem copyWords_eq (m : Mem) (h : d ≤ s ∨ s + n ≤ d) : copyWords m d s n = copyBytes m d s n := by
  induction n using Nat.strongRecOn generalizing m d s with
  | ind n ih =>
    rw [copyWords]
    split_ifs with hword
    · have hup : d ≤ s ∨ s + (8 + (n - 8)) ≤ d := by omega
      rw [storeLE_loadLE, ih (n - 8) (by omega) _ (by omega), copyBytes_append m hup,
        Nat.add_sub_of_le hword]
    · exact copyUp_eq m h

theorem copyAligned_eq (m : Mem) (h : d ≤ s ∨ s + n ≤ d) :
    copyAligned n m d s = copyBytes m d s n := by
  induction n generalizing m d s with
  | zero => exact copyWords_eq m h
  | succ n ih =>
    rw [copyAligned]
    split_ifs with halign
    · have hup : d ≤ s ∨ s + (1 + n) ≤ d := by omega
      rw [← copyBytes_one, ih _ (by omega), copyBytes_append m hup, Nat.add_comm 1]
    · exact copyWords_eq m h

/-- **`memcpy`** of bytes to below them, or to behind them. -/
theorem memcpy_eq (m : Mem) (h : d ≤ s ∨ s + n ≤ d) : memcpy m d s n = (copyBytes m d s n, d) := by
  rw [memcpy, copyUp_eq m h, copyAligned_eq m h, ite_self]

theorem copyDown_eq (m : Mem) (h : s ≤ d) :
    copyDown n m (d + n - 1) (s + n - 1) = copyBytes m d s n := by
  induction n generalizing m with
  | zero => rw [copyDown, copyBytes_zero]
  | succ n ih => rw [copyDown, ← copyBytes_last m h, ← ih]; rfl

/-! ### `memmove` -/

/-- `memmove`: a source that ends where the address space does is not below the destination. -/
theorem memmove_eq (m : Mem) (hd : d + n ≤ 2 ^ 64) (hs : s + n ≤ 2 ^ 64) :
    memmove m d s n = (copyBytes m d s n, d) := by
  rw [memmove]
  split_ifs with hmemcpy
  · rcases hs.lt_or_eq with hlt | heq
    · rw [wrap_of_lt hlt] at hmemcpy
      exact memcpy_eq m hmemcpy
    · exact memcpy_eq m (.inl (by omega))
  · rw [copyDown_eq m (by omega)]

/-- **`memmove` is the ideal move**, whatever the overlap and the alignment: the bytes that were at
the source are at the destination, and nothing else changes. -/
theorem memmove_ideal (m : Mem) (hd : d + n ≤ 2 ^ 64) (hs : s + n ≤ 2 ^ 64) :
    (∀ i < n, (memmove m d s n).1 (d + i) = m (s + i)) ∧
      Set.EqOn (memmove m d s n).1 m (Set.Ico d (d + n))ᶜ ∧ (memmove m d s n).2 = d := by
  rw [memmove_eq m hd hs]
  refine ⟨fun i hi => ?_, copyBytes_eqOn m d s n, rfl⟩
  simp only [copyBytes]
  rw [if_pos (by omega), Nat.add_sub_cancel_left]

/-- Down by three bytes, from an address that is not aligned. -/
theorem memmove_ideal_down : (1 + 20 ≤ 2 ^ 64 ∧ 4 + 20 ≤ 2 ^ 64) ∧
    ∀ i < 20, (memmove UInt8.ofNat 1 4 20).1 (1 + i) = UInt8.ofNat (4 + i) :=
  ⟨by decide, (memmove_ideal (d := 1) (s := 4) (n := 20) UInt8.ofNat (by decide) (by decide)).1⟩

end

end PrismaticOS.Libc
