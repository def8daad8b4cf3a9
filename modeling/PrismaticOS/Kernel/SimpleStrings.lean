import Mathlib.Order.CompletePartialOrder
import Mathlib.Order.Interval.Set.Disjoint
import PrismaticOS.Libc.Search
import PrismaticOS.Libc.Strncpy

/-!
# The string functions of the kernel

`strncpy` and `strstr` of `kernel/simple_mm.c`, beside those of the libc.

## The model

The first loop of `strncpy` leaves `i` to the second one. The loop of `strstr` over the haystack is
`findLoop`.

## What is proved

* `strncpy_filled` — the `strncpy` of the kernel does what it should.
* `strncpy_both_iff` — the exact condition for both to.
* `both_strstr_first` — both `strstr` return the first occurrence.
-/

namespace PrismaticOS.Kernel.SimpleMm

open PrismaticOS.Library PrismaticOS.Libc

/-! ### `strncpy` -/

/-- `for (i = 0; i < n && src[i]; i++) dest[i] = src[i];`, from some `i` on. -/
def copyLoop (m : Mem) (dest src n i : ℕ) : Mem × ℕ :=
  if i < n ∧ m (src + i) ≠ 0 then
    copyLoop (Function.update m (dest + i) (m (src + i))) dest src n (i + 1)
  else (m, i)
termination_by n - i

/-- `for (; i < n; i++) dest[i] = 0;` -/
def zeroLoop (m : Mem) (dest n i : ℕ) : Mem :=
  if i < n then zeroLoop (Function.update m (dest + i) 0) dest n (i + 1) else m
termination_by n - i

/-- `strncpy`. -/
def strncpy (m : Mem) (dest src n : ℕ) : Mem × ℕ :=
  (zeroLoop (copyLoop m dest src n 0).1 dest n (copyLoop m dest src n 0).2, dest)

section
variable {m : Mem} {p dest src haystack needle n i : ℕ} {text pat : List UInt8}

theorem zeroLoop_eq (m : Mem) (dest n i : ℕ) :
    zeroLoop m dest n i = fun x => if dest + i ≤ x ∧ x < dest + n then 0 else m x := by
  induction hk : n - i generalizing m i with
  | zero =>
    funext x
    rw [zeroLoop, if_neg (by omega), if_neg (by omega)]
  | succ k ih =>
    rw [zeroLoop, if_pos (by omega), ih _ (i + 1) (by omega)]
    funext x
    rw [Function.update_apply]
    split_ifs <;> first | rfl | omega

theorem copyLoop_eq (h : IsString m (src + i) text)
    (hapart : dest + n ≤ src ∨ src + i + text.length < dest) :
    copyLoop m dest src n i = (copyBytes m (dest + i) (src + i) (min text.length (n - i)),
      i + min text.length (n - i)) := by
  induction text generalizing m i with
  | nil =>
    have hstop : ¬ (i < n ∧ m (src + i) ≠ 0) := fun hgo => hgo.2 h
    rw [copyLoop, if_neg hstop, List.length_nil, Nat.zero_min, copyBytes_zero, Nat.add_zero]
  | cons c text ih =>
    rw [List.length_cons] at hapart ⊢
    have hbyte : m (src + i) ≠ 0 := by rw [h.1]; exact h.2.1
    rw [copyLoop]
    by_cases hi : i < n
    · have hmin : min (text.length + 1) (n - i) = 1 + min text.length (n - (i + 1)) := by omega
      have hup : dest + i ≤ src + i ∨ src + i + (1 + min text.length (n - (i + 1))) ≤ dest + i := by
        omega
      have hcopied : IsString (copyBytes m (dest + i) (src + i) 1) (src + i + 1) text :=
        isString_copied h (by omega)
      rw [if_pos ⟨hi, hbyte⟩, ← copyBytes_one, ih hcopied (by omega), hmin,
        ← copyBytes_append m hup, Nat.add_assoc i, Nat.add_assoc dest, Nat.add_assoc src]
    · rw [if_neg fun hgo => hi hgo.1, Nat.sub_eq_zero_of_le (Nat.le_of_not_lt hi), Nat.min_zero,
        copyBytes_zero, Nat.add_zero]

/-- **The `strncpy` of the kernel** copies the text and fills up with zeros. -/
theorem strncpy_filled (h : IsString m src text)
    (hapart : n = 0 ∨ dest + n ≤ src ∨ src + text.length < dest) :
    Filled m (strncpy m dest src n).1 dest n text := by
  rcases Nat.eq_zero_or_pos n with rfl | hpos
  · have hnone : copyLoop m dest src 0 0 = (m, 0) := by
      rw [copyLoop, if_neg fun hgo => Nat.not_lt_zero _ hgo.1]
    refine ⟨fun i hi => absurd hi (Nat.not_lt_zero i), fun x _ => ?_⟩
    rw [strncpy, hnone, zeroLoop, if_neg (Nat.lt_irrefl 0)]
  have hcopied := copyLoop_eq (i := 0) h (hapart.resolve_left hpos.ne')
  rw [strncpy, hcopied, zeroLoop_eq]
  simp only [Nat.zero_add, Nat.add_zero, Nat.sub_zero]
  refine ⟨fun i hi => ?_, fun x hx => ?_⟩
  · split_ifs with hzero
    · exact (List.getD_eq_default _ _ (by omega)).symm
    · exact copyBytes_text h (by omega) (by omega)
  · rw [Set.mem_compl_iff, Set.mem_Ico] at hx
    rw [if_neg (by omega)]
    exact copyBytes_eqOn _ _ _ _ (by rw [Set.mem_compl_iff, Set.mem_Ico]; omega)

/-- **Both `strncpy`** do what they should exactly if the string ends before the `n` bytes do, or
there are no bytes to write and the libc writes zeros over zeros. -/
theorem strncpy_both_iff (h : IsString m src text) (hd : dest < 2 ^ 64)
    (hdest : dest + n ≤ 2 ^ 64) (hsrc : src + text.length < 2 ^ 64)
    (hapart : Disjoint (Set.Ico dest (dest + n)) (Set.Ico src (src + (text.length + 1)))) :
    (Filled m (Libc.strncpy m dest src n).1 dest n text ∧
      Filled m (strncpy m dest src n).1 dest n text) ↔
    text.length < n ∨ n = 0 ∧ ∀ x < 2 ^ 64, x ≠ wsub 64 dest 1 → m x = 0 := by
  rw [Set.Ico_disjoint_Ico] at hapart
  have hranges : n = 0 ∨ dest + n ≤ src ∨ src + text.length < dest := by omega
  rw [and_iff_left (strncpy_filled h hranges)]
  exact strncpy_filled_iff h hd hdest hsrc hranges

/-- A string of one byte, and two bytes for it. -/
theorem strncpy_both_letter :
    (IsString (fun a => if a = 8 then 65 else 0) 8 [65] ∧
      Disjoint (Set.Ico 16 (16 + 2)) (Set.Ico 8 (8 + 2))) ∧
    ((Filled (fun a => if a = 8 then 65 else 0)
        (Libc.strncpy (fun a => if a = 8 then 65 else 0) 16 8 2).1 16 2 [65] ∧
      Filled (fun a => if a = 8 then 65 else 0)
        (strncpy (fun a => if a = 8 then 65 else 0) 16 8 2).1 16 2 [65]) ↔
      1 < 2 ∨ 2 = 0 ∧ ∀ x < 2 ^ 64, x ≠ wsub 64 16 1 → (if x = 8 then (65 : UInt8) else 0) = 0) := by
  have hstring : IsString (fun a => if a = 8 then 65 else 0) 8 [65] := ⟨rfl, by decide, rfl⟩
  have hdisjoint : Disjoint (Set.Ico 16 (16 + 2)) (Set.Ico 8 (8 + 2)) := by
    rw [Set.Ico_disjoint_Ico]
    decide
  exact ⟨⟨hstring, hdisjoint⟩,
    strncpy_both_iff hstring (by decide) (by decide) (by decide) hdisjoint⟩

/-- One byte for it: the libc empties the string itself. -/
theorem strncpy_empties :
    (Libc.strncpy (fun a => if a = 8 then 65 else 0) 16 8 1).1 8 = 0 ∧
    ¬ (Filled (fun a => if a = 8 then 65 else 0)
        (Libc.strncpy (fun a => if a = 8 then 65 else 0) 16 8 1).1 16 1 [65] ∧
      Filled (fun a => if a = 8 then 65 else 0)
        (strncpy (fun a => if a = 8 then 65 else 0) 16 8 1).1 16 1 [65]) := by
  have hstring : IsString (fun a => if a = 8 then 65 else 0) 8 [65] := ⟨rfl, by decide, rfl⟩
  have hempty : (Libc.strncpy (fun a => if a = 8 then 65 else 0) 16 8 1).1 8 = 0 := by
    rw [strncpy_wraps hstring (by decide) (by decide) (by decide) (by decide)]
    exact if_pos (by decide)
  refine ⟨hempty, fun hboth => ?_⟩
  have hsame := hboth.1.outside (x := 8) (by rw [Set.mem_compl_iff, Set.mem_Ico]; omega)
  exact absurd (hempty.symm.trans hsame) (by decide)

/-! ### `strstr` -/

/-- `while (*n && *h && *h == *n)`: where `n` stops. -/
def matchLoop (m : Mem) : ℕ → ℕ → ℕ → Option ℕ
  | 0, _, _ => none
  | steps + 1, h, n =>
    if m n ≠ 0 ∧ m h ≠ 0 ∧ m h = m n then matchLoop m steps (h + 1) (n + 1) else some n

/-- `strstr`. -/
def strstr (m : Mem) (haystack needle : ℕ) : Option ℕ :=
  if needle = 0 ∨ m needle = 0 then some haystack
  else
    findLoop m (fun h => (matchLoop m addresses h needle).map fun n => decide (m n = 0)) addresses
      haystack

/-- The needle is at its end exactly if the haystack begins with it. -/
theorem matchLoop_eq {q steps : ℕ} (h : IsString m p text) (hpat : IsString m q pat)
    (hsteps : pat.length < steps) :
    ∃ n, matchLoop m steps p q = some n ∧ (m n = 0 ↔ pat <+: text) := by
  induction pat generalizing p q steps text with
  | nil =>
    obtain ⟨steps, rfl⟩ := Nat.exists_eq_add_one.mpr hsteps
    have hstop : ¬ (m q ≠ 0 ∧ m p ≠ 0 ∧ m p = m q) := fun hgo => hgo.1 hpat
    exact ⟨q, if_neg hstop, iff_of_true hpat List.nil_prefix⟩
  | cons c pat ih =>
    obtain ⟨steps, rfl⟩ := Nat.exists_eq_add_one.mpr (Nat.zero_lt_of_lt hsteps)
    obtain ⟨hc, hc0, hpat⟩ := hpat
    rw [matchLoop, hc]
    cases text with
    | nil =>
      have hstop : ¬ (c ≠ 0 ∧ m p ≠ 0 ∧ m p = c) := fun hgo => hgo.2.1 h
      rw [if_neg hstop]
      exact ⟨q, rfl, iff_of_false (hc.trans_ne hc0) fun hstart => nomatch List.prefix_nil.mp hstart⟩
    | cons d text =>
      obtain ⟨hd, hd0, h⟩ := h
      rw [hd, List.cons_prefix_cons]
      by_cases hsame : d = c
      · obtain ⟨n, hn, hiff⟩ := ih h hpat (Nat.lt_of_succ_lt_succ hsteps)
        rw [if_pos ⟨hc0, hd0, hsame⟩]
        exact ⟨n, hn, hiff.trans (and_iff_right hsame.symm).symm⟩
      · rw [if_neg fun hgo => hsame hgo.2.2]
        exact ⟨q, rfl, iff_of_false (hc.trans_ne hc0) fun hstart => hsame hstart.1.symm⟩

theorem strstr_eq (h : IsString m haystack text) (hneedle : IsString m needle pat)
    (h0 : haystack ≠ 0) (h0' : needle ≠ 0) (hend : haystack + text.length < 2 ^ 64)
    (hend' : needle + pat.length < 2 ^ 64) :
    ∃ r, strstr m haystack needle = some r ∧
      PointsTo IsLeast {k | pat <+: text.drop k} haystack r := by
  have hsteps : text.length < addresses ∧ pat.length < addresses :=
    ⟨lt_addresses (by omega), lt_addresses (by omega)⟩
  have hempty : needle = 0 ∨ m needle = 0 ↔ pat = [] := by
    rw [or_iff_right h0', hneedle.head_eq_zero_iff]
  rw [strstr]
  by_cases hpat : pat = []
  · rw [if_pos (hempty.mpr hpat), hpat]
    exact ⟨_, rfl, pointsTo_least occurrence_nil h0⟩
  · rw [if_neg (mt hempty.mp hpat)]
    refine findLoop_eq h h0 hsteps.1 (occurrence_lt hpat) fun k hk => ?_
    obtain ⟨n, hn, hiff⟩ := matchLoop_eq (h.suffix hk.le) hneedle hsteps.2
    exact ⟨_, by rw [hn, Option.map_some], by rw [decide_eq_true_eq]; exact hiff⟩

/-- **Both `strstr`** return the first occurrence, or `NULL` if there is none: they agree. -/
theorem both_strstr_first (h : IsString m haystack text) (hneedle : IsString m needle pat)
    (h0 : haystack ≠ 0) (h0' : needle ≠ 0) (hend : haystack + text.length < 2 ^ 64)
    (hend' : needle + pat.length < 2 ^ 64) :
    ∃ r, Libc.strstr m haystack needle = some r ∧ strstr m haystack needle = some r ∧
      PointsTo IsLeast {k | pat <+: text.drop k} haystack r := by
  obtain ⟨r, hr, hpoints⟩ := Libc.strstr_eq h hneedle h0 hend hend'
  obtain ⟨r', hr', hpoints'⟩ := strstr_eq h hneedle h0 h0' hend hend'
  rw [← pointsTo_unique hpoints hpoints'] at hr'
  exact ⟨r, hr, hr', hpoints⟩

/-- "BA" in "ABA", where it is the end of the same string. -/
theorem both_strstr_first_end :
    (IsString (fun a => [65, 66, 65].getD (a - 8) 0) 8 [65, 66, 65] ∧
      IsString (fun a => [65, 66, 65].getD (a - 8) 0) 9 [66, 65]) ∧
    ∃ r, Libc.strstr (fun a => [65, 66, 65].getD (a - 8) 0) 8 9 = some r ∧
      strstr (fun a => [65, 66, 65].getD (a - 8) 0) 8 9 = some r ∧
      PointsTo IsLeast {k | [(66 : UInt8), 65] <+: [65, 66, 65].drop k} 8 r := by
  have hstring : IsString (fun a => [65, 66, 65].getD (a - 8) 0) 8 [65, 66, 65] :=
    IsString.of_getD (by decide) (by decide)
  have hneedle : IsString (fun a => [65, 66, 65].getD (a - 8) 0) 9 [66, 65] := hstring.2.2
  exact ⟨⟨hstring, hneedle⟩,
    both_strstr_first hstring hneedle (by decide) (by decide) (by decide) (by decide)⟩

end

end PrismaticOS.Kernel.SimpleMm
