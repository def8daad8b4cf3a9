import Mathlib.Data.List.GetD
import PrismaticOS.Libc.Strings

/-!
# `strncpy`

`strncpy` of `libc/src/string/strlen.c`. Both of its loops count `n` down with `n--` in the
condition. The first one ends with `n` wrapped around if it has copied `n` bytes and no zero, and
then the second one does not end before it has written to all addresses but one.

## The model

Pointers and `n` have 64 bits. A loop returns what the next one needs.

## What is proved

* `padLoop_eq` — the second loop, whatever `n` is.
* `strncpy_short`, `strncpy_wraps` — the two cases.
* `strncpy_filled_iff` — the exact condition for `strncpy` to do what it should.
-/

namespace PrismaticOS.Libc

open PrismaticOS.Library

/-! ### The function -/

/-- `while (n-- && (*d++ = *src++))`: the memory, `d` and `n` after it. -/
def strncpyLoop : ℕ → Mem → ℕ → ℕ → Mem × ℕ × ℕ
  | 0, m, d, _ => (m, d, wsub 64 0 1)
  | n + 1, m, d, src =>
    if m src ≠ 0 then strncpyLoop n (Function.update m d (m src)) (wrap 64 (d + 1)) (src + 1)
    else (Function.update m d (m src), wrap 64 (d + 1), n)

/-- `while (n--) *d++ = 0;` -/
def padLoop : ℕ → Mem → ℕ → Mem
  | 0, m, _ => m
  | n + 1, m, d => padLoop n (Function.update m d 0) (wrap 64 (d + 1))

/-- `strncpy`. -/
def strncpy (m : Mem) (dest src n : ℕ) : Mem × ℕ :=
  let copied := strncpyLoop n m dest src
  (padLoop copied.2.2 copied.1 copied.2.1, dest)

/-- What `strncpy` is for: the text and zeros are in the `n` bytes at `dest`, and nothing else
changes. -/
structure Filled (m m' : Mem) (dest n : ℕ) (text : List UInt8) : Prop where
  /-- The text, and zeros. -/
  bytes : ∀ i < n, m' (dest + i) = text.getD i 0
  /-- The other bytes. -/
  outside : Set.EqOn m' m (Set.Ico dest (dest + n))ᶜ

section
variable {m m' : Mem} {d dest src n : ℕ} {text : List UInt8}

/-! ### The loops -/

/-- The first word after `d` is at a distance of one less. -/
theorem wsub_next {x k : ℕ} (hx : x < 2 ^ 64) (hd : d < 2 ^ 64) (hk : k < 2 ^ 64 - 1) :
    wsub 64 x d < k + 1 ↔ x = d ∨ wsub 64 x (wrap 64 (d + 1)) < k := by
  unfold wsub wrap
  omega

/-- **The second loop** writes zeros to the next addresses, and on from 0 behind the last one. -/
theorem padLoop_eq {k : ℕ} (m : Mem) (hd : d < 2 ^ 64) (hk : k < 2 ^ 64) :
    padLoop k m d = fun x => if x < 2 ^ 64 ∧ wsub 64 x d < k then 0 else m x := by
  induction k generalizing m d with
  | zero =>
    funext x
    rw [padLoop, if_neg fun h => Nat.not_lt_zero _ h.2]
  | succ k ih =>
    rw [padLoop, ih _ (wrap_lt 64 _) (by omega)]
    funext x
    rw [Function.update_apply]
    by_cases hx : x < 2 ^ 64
    · simp only [hx, true_and, wsub_next hx hd (Nat.lt_sub_of_add_lt hk)]
      by_cases hxd : x = d <;> simp [hxd]
    · have hxd : x ≠ d := by omega
      simp only [hx, hxd, false_and, if_false]

/-- One byte is copied: the rest of the string is still there. -/
theorem isString_copied {c : UInt8} (h : IsString m src (c :: text))
    (hapart : dest < src ∨ src + (text.length + 1) < dest) :
    IsString (copyBytes m dest src 1) (src + 1) text :=
  h.2.2.congr fun x hx hx' => copyBytes_eqOn m dest src 1 (by
    rw [Set.mem_compl_iff, Set.mem_Ico]
    omega)

/-- The first loop stops at the final zero. -/
theorem strncpyLoop_zero (h : IsString m src text) (hlen : text.length < n)
    (hdest : dest + n ≤ 2 ^ 64) (hapart : dest + n ≤ src ∨ src + text.length < dest) :
    strncpyLoop n m dest src = (copyBytes m dest src (text.length + 1),
      wrap 64 (dest + (text.length + 1)), n - (text.length + 1)) := by
  obtain ⟨n, rfl⟩ := Nat.exists_eq_add_one.mpr (Nat.zero_lt_of_lt hlen)
  induction text generalizing m dest src n with
  | nil =>
    have hzero : ¬ m src ≠ 0 := not_not.mpr h
    rw [strncpyLoop, if_neg hzero, ← copyBytes_one]
    rfl
  | cons c text ih =>
    simp only [List.length_cons] at hlen hapart ⊢
    obtain ⟨n, rfl⟩ := Nat.exists_eq_add_one_of_ne_zero (show n ≠ 0 by omega)
    have hbyte : m src ≠ 0 := by rw [h.1]; exact h.2.1
    have hnext : wrap 64 (dest + 1) = dest + 1 := wrap_of_lt (by omega)
    have hup : dest ≤ src ∨ src + (1 + (text.length + 1)) ≤ dest := by omega
    have hcopied : IsString (copyBytes m dest src 1) (src + 1) text := isString_copied h (by omega)
    have hrest : strncpyLoop (n + 1) (copyBytes m dest src 1) (dest + 1) (src + 1) = _ :=
      ih hcopied n (by omega) (by omega) (by omega)
    have hall : 1 + (text.length + 1) = text.length + 1 + 1 := Nat.add_comm ..
    have hleft : n + 1 - (text.length + 1) = n + 1 + 1 - (text.length + 1 + 1) := by omega
    rw [strncpyLoop, if_pos hbyte, ← copyBytes_one, hnext, hrest, copyBytes_append m hup,
      Nat.add_assoc dest, hall, hleft]

/-- The first loop stops because `n` is 0, and `n` is the largest number then. -/
theorem strncpyLoop_wraps (h : IsString m src text) (hlen : n ≤ text.length) (hd : dest < 2 ^ 64)
    (hdest : dest + n ≤ 2 ^ 64) (hapart : n = 0 ∨ dest + n ≤ src ∨ src + text.length < dest) :
    strncpyLoop n m dest src =
      (copyBytes m dest src n, wrap 64 (dest + n), wsub 64 0 1) := by
  induction n generalizing m dest src text with
  | zero => rw [strncpyLoop, copyBytes_zero, Nat.add_zero, wrap_of_lt hd]
  | succ n ih =>
    obtain ⟨c, text, rfl⟩ := List.exists_cons_of_length_pos (Nat.zero_lt_of_lt hlen)
    simp only [List.length_cons] at hlen hapart
    have hbyte : m src ≠ 0 := by rw [h.1]; exact h.2.1
    have hup : dest ≤ src ∨ src + (1 + n) ≤ dest := by omega
    have hcopied : IsString (copyBytes m dest src 1) (src + 1) text := isString_copied h (by omega)
    have hrest := ih hcopied (Nat.le_of_succ_le_succ hlen) (wrap_lt 64 (dest + 1))
    rw [strncpyLoop, if_pos hbyte, ← copyBytes_one]
    rcases Nat.eq_zero_or_pos n with rfl | hpos
    · rfl
    · have hnext : wrap 64 (dest + 1) = dest + 1 := wrap_of_lt (by omega)
      rw [hnext] at hrest ⊢
      rw [hrest (by omega) (by omega), copyBytes_append m hup, Nat.add_comm 1, Nat.add_right_comm,
        Nat.add_assoc]

/-! ### `strncpy` -/

/-- The bytes that are copied. -/
theorem copyBytes_text (h : IsString m src text) {i k : ℕ} (hi : i < k) (hk : i ≤ text.length) :
    copyBytes m dest src k (dest + i) = text.getD i 0 := by
  simp only [copyBytes]
  rw [if_pos (by omega), Nat.add_sub_cancel_left, h.byte hk]

/-- A string that ends before the `n` bytes do is copied, and zeros follow. -/
theorem strncpy_short (h : IsString m src text) (hlen : text.length < n)
    (hdest : dest + n ≤ 2 ^ 64) (hapart : dest + n ≤ src ∨ src + text.length < dest) :
    Filled m (strncpy m dest src n).1 dest n text := by
  have hd : dest + text.length < 2 ^ 64 := by omega
  rw [strncpy, strncpyLoop_zero h hlen hdest hapart]
  generalize hk : n - (text.length + 1) = k
  simp only [padLoop_eq _ (wrap_lt 64 _) (show k < 2 ^ 64 by omega)]
  -- nothing is left, or there is an address behind the zero
  have hzeros (x : ℕ) : (x < 2 ^ 64 ∧ wsub 64 x (wrap 64 (dest + (text.length + 1))) < k) ↔
      dest + text.length < x ∧ x < dest + n := by
    rcases Nat.eq_zero_or_pos k with rfl | hpos
    · omega
    · rw [wrap_of_lt (by omega)]
      constructor
      · rintro ⟨hx, hlt⟩
        rw [wsub_lt_iff hx (by omega) (by omega)] at hlt
        omega
      · intro hx
        refine ⟨by omega, ?_⟩
        rw [wsub_lt_iff (by omega) (by omega) (by omega)]
        omega
  refine ⟨fun i hi => ?_, fun x hx => ?_⟩
  · simp only [hzeros]
    split_ifs with hzero
    · exact (List.getD_eq_default _ _ (by omega)).symm
    · exact copyBytes_text h (by omega) (by omega)
  · rw [Set.mem_compl_iff, Set.mem_Ico] at hx
    simp only [hzeros]
    rw [if_neg (by omega)]
    exact copyBytes_eqOn _ _ _ _ (by rw [Set.mem_compl_iff, Set.mem_Ico]; omega)

/-- All addresses but the one before `d`. -/
theorem wsub_lt_last {x : ℕ} (hx : x < 2 ^ 64) :
    wsub 64 x d < wsub 64 0 1 ↔ x ≠ wsub 64 d 1 := by
  unfold wsub
  omega

/-- If the string does not end before the `n` bytes do, there are zeros everywhere but in the byte
before `dest + n`. -/
theorem strncpy_wraps (h : IsString m src text) (hlen : n ≤ text.length) (hd : dest < 2 ^ 64)
    (hdest : dest + n ≤ 2 ^ 64) (hapart : n = 0 ∨ dest + n ≤ src ∨ src + text.length < dest) :
    (strncpy m dest src n).1 = fun x =>
      if x < 2 ^ 64 ∧ x ≠ wsub 64 (dest + n) 1 then 0 else copyBytes m dest src n x := by
  have hend : wsub 64 (wrap 64 (dest + n)) 1 = wsub 64 (dest + n) 1 := by
    unfold wsub wrap
    omega
  have hlast : wsub 64 0 1 < 2 ^ 64 := by
    unfold wsub
    omega
  rw [strncpy, strncpyLoop_wraps h hlen hd hdest hapart]
  simp only [padLoop_eq _ (wrap_lt 64 _) hlast]
  funext x
  by_cases hx : x < 2 ^ 64
  · simp only [hx, true_and, wsub_lt_last hx, hend]
  · simp only [hx, false_and]

/-- **`strncpy`** does what it should exactly if the string ends before the `n` bytes do, or there
are no bytes to write and the zeros that it writes everywhere are there already. -/
theorem strncpy_filled_iff (h : IsString m src text) (hd : dest < 2 ^ 64)
    (hdest : dest + n ≤ 2 ^ 64) (hsrc : src + text.length < 2 ^ 64)
    (hapart : n = 0 ∨ dest + n ≤ src ∨ src + text.length < dest) :
    Filled m (strncpy m dest src n).1 dest n text ↔
      text.length < n ∨ n = 0 ∧ ∀ x < 2 ^ 64, x ≠ wsub 64 dest 1 → m x = 0 := by
  by_cases hlen : text.length < n
  · exact iff_of_true (strncpy_short h hlen hdest (by omega)) (.inl hlen)
  rw [or_iff_right hlen]
  have hwraps := strncpy_wraps h (Nat.le_of_not_lt hlen) hd hdest hapart
  constructor
  · intro hfilled
    rcases Nat.eq_zero_or_pos n with rfl | hpos
    · refine ⟨rfl, fun x hx hne => ?_⟩
      have hsame := hfilled.outside (x := x) (by simp)
      rw [hwraps] at hsame
      simp only at hsame
      rw [if_pos ⟨hx, hne⟩] at hsame
      exact hsame.symm
    · -- the string itself becomes empty
      have hsame := hfilled.outside (x := src) (by rw [Set.mem_compl_iff, Set.mem_Ico]; omega)
      have hne : src ≠ wsub 64 (dest + n) 1 := by
        unfold wsub
        omega
      rw [hwraps] at hsame
      simp only at hsame
      rw [if_pos ⟨by omega, hne⟩] at hsame
      rw [h.head_eq_zero_iff.mp hsame.symm] at hlen
      exact absurd hpos hlen
  · rintro ⟨rfl, hzero⟩
    refine ⟨fun i hi => absurd hi (Nat.not_lt_zero i), fun x _ => ?_⟩
    rw [hwraps, copyBytes_zero]
    simp only [Nat.add_zero]
    split_ifs with hx
    · exact (hzero x hx.1 hx.2).symm
    · rfl

end

end PrismaticOS.Libc
