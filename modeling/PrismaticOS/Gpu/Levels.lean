import Mathlib.Algebra.BigOperators.Group.Finset.Basic
import Mathlib.Algebra.Order.BigOperators.Group.Finset
import Mathlib.Tactic.Ring
import PrismaticOS.Library.Ranges

/-!
# The levels of a texture

How much memory the levels of a texture need, how much `gpu_create_texture` of
`graphics/src/gpu/gpu_backend.c` allocates for them, and where `gpu_map_texture` puts them, for a
texture of `w` by `h` by `d` pixels of `px` bytes.

## The model

These are the numbers that the functions compute, in ℕ; `Gpu.Textures` has the functions.

## What is proved

* `allocated_bounds` — at most twice what the first level takes is allocated.
* `levelsFit_of_fits`, `LevelsFit.before` and `LevelsFit.le_allocated` — every level ends before
  the next one begins, and within what is allocated, if and only if the levels fit.
* `levelsFit_depth_one` — the condition for a texture of depth one.
-/

namespace PrismaticOS.Gpu

open Finset

variable {w h d px n : ℕ}

/-- `w >> i` times `h >> i`. -/
def area (w h i : ℕ) : ℕ := w / 2 ^ i * (h / 2 ^ i)

/-- The bytes of a level, which has one pixel at least. -/
def levelSize (w h px i : ℕ) : ℕ := max 1 (w / 2 ^ i) * max 1 (h / 2 ^ i) * px

/-- Where `gpu_map_texture` puts a level: the areas are products of 32 bits. -/
def levelOffset (w h i : ℕ) : ℕ := ∑ j ∈ range i, 4 * (area w h j % 2 ^ 32)

/-- What `gpu_create_texture` allocates for `n` levels, where the first one takes `size` bytes. -/
def allocated (size n : ℕ) : ℕ := ∑ i ∈ range n, size / 2 ^ i

/-- The levels of a texture are where they should be. For one level, the pixels are counted
right; for more than one, a pixel has at most four bytes, the pixels of a level are a number of
32 bits, no level but the last one has less than one pixel in a direction, and what is allocated
is enough. -/
def LevelsFit (w h d px : ℕ) : ℕ → Prop
  | 0 => True
  | 1 => 0 < w * h ∧ w * h ≤ w * h * d % 2 ^ 32
  | k + 2 => px ≤ 4 ∧ w * h < 2 ^ 32 ∧ 2 ^ k ≤ w ∧ 2 ^ k ≤ h ∧
    ∑ i ∈ range (k + 1), 4 * area w h i + levelSize w h px (k + 1) ≤
      allocated (w * h * d % 2 ^ 32 * px) (k + 2)

instance (w h d px : ℕ) : ∀ n, Decidable (LevelsFit w h d px n)
  | 0 => isTrue trivial
  | 1 => inferInstanceAs (Decidable (_ ∧ _))
  | _ + 2 => inferInstanceAs (Decidable (_ ∧ _ ∧ _ ∧ _ ∧ _))

theorem allocated_one (size : ℕ) : allocated size 1 = size := by
  rw [allocated, sum_range_one, pow_zero, Nat.div_one]

/-- Halves, quarters and so on are no more than the whole. -/
theorem allocated_bounds (size n : ℕ) :
    allocated size (n + 1) + size / 2 ^ n ≤ 2 * size := by
  induction n with
  | zero => simp [allocated, two_mul]
  | succ n ih =>
    have hhalf : size / 2 ^ (n + 1) = size / 2 ^ n / 2 := by
      rw [Nat.pow_succ, Nat.div_div_eq_div_mul]
    rw [allocated, sum_range_succ, ← allocated, hhalf]
    omega

theorem area_le (w h i : ℕ) : area w h i ≤ w * h :=
  Nat.mul_le_mul (Nat.div_le_self ..) (Nat.div_le_self ..)

theorem px_le_levelSize (w h px i : ℕ) : px ≤ levelSize w h px i :=
  Nat.le_mul_of_pos_left px
    (Nat.mul_pos (Nat.lt_of_lt_of_le Nat.one_pos (le_max_left ..))
      (Nat.lt_of_lt_of_le Nat.one_pos (le_max_left ..)))

theorem area_mul_le_levelSize (w h px i : ℕ) : area w h i * px ≤ levelSize w h px i :=
  Nat.mul_le_mul_right px (Nat.mul_le_mul (le_max_right ..) (le_max_right ..))

/-- A level that has pixels in both directions. -/
theorem levelSize_of_le {i : ℕ} (hw : 2 ^ i ≤ w) (hh : 2 ^ i ≤ h) :
    levelSize w h px i = area w h i * px := by
  have hw' : 1 ≤ w / 2 ^ i := Nat.div_pos hw (Nat.two_pow_pos i)
  have hh' : 1 ≤ h / 2 ^ i := Nat.div_pos hh (Nat.two_pow_pos i)
  rw [levelSize, max_eq_right hw', max_eq_right hh', area]

/-- A level that the next one does not begin in has pixels in both directions. -/
theorem pixels_of_fits {i : ℕ} (hpx : 0 < px)
    (hfit : levelSize w h px i ≤ 4 * (area w h i % 2 ^ 32)) : 2 ^ i ≤ w ∧ 2 ^ i ≤ h := by
  have hpos : 0 < area w h i % 2 ^ 32 := by
    have := px_le_levelSize w h px i
    omega
  have harea : area w h i ≠ 0 := fun h₀ => by
    rw [h₀] at hpos
    exact absurd hpos (by decide)
  obtain ⟨hw, hh⟩ := Nat.mul_ne_zero_iff.mp harea
  exact ⟨(Nat.div_ne_zero_iff.mp hw).2, (Nat.div_ne_zero_iff.mp hh).2⟩

/-- Such a level has at most four bytes a pixel. -/
theorem px_le_of_fits {i : ℕ} (hpx : 0 < px)
    (hfit : levelSize w h px i ≤ 4 * (area w h i % 2 ^ 32)) : px ≤ 4 := by
  obtain ⟨hw, hh⟩ := pixels_of_fits hpx hfit
  rw [levelSize_of_le hw hh] at hfit
  have hle : area w h i * px ≤ area w h i * 4 := by
    have := Nat.mod_le (area w h i) (2 ^ 32)
    omega
  have hpos : 0 < area w h i :=
    Nat.mul_pos (Nat.div_pos hw (Nat.two_pow_pos i)) (Nat.div_pos hh (Nat.two_pow_pos i))
  exact Nat.le_of_mul_le_mul_left hle hpos

theorem area_comm (w h i : ℕ) : area w h i = area h w i := Nat.mul_comm ..

theorem area_zero (w h : ℕ) : area w h 0 = w * h := by
  rw [area, pow_zero, Nat.div_one, Nat.div_one]

/-- The second level has a quarter of the pixels, almost, but for a texture of two or three
pixels in one direction. -/
theorem area_one_bounds (hw : 2 ≤ w) (hh : 2 ^ 16 ≤ h) :
    4 * area w h 1 ≤ w * h ∧ w * h ≤ 6 * area w h 1 + 3 * (w / 2) ∧
      2 ^ 15 * (w / 2) ≤ area w h 1 := by
  have harea : area w h 1 = w / 2 * (h / 2) := by rw [area, pow_one]
  rw [harea]
  refine ⟨?_, ?_, ?_⟩
  · calc 4 * (w / 2 * (h / 2)) = (2 * (w / 2)) * (2 * (h / 2)) := by ring
      _ ≤ w * h := Nat.mul_le_mul (Nat.mul_div_le w 2) (Nat.mul_div_le h 2)
  · calc w * h ≤ (3 * (w / 2)) * (2 * (h / 2) + 1) := Nat.mul_le_mul (by omega) (by omega)
      _ = 6 * (w / 2 * (h / 2)) + 3 * (w / 2) := by ring
  · rw [Nat.mul_comm]
    exact Nat.mul_le_mul_left _ (by omega)

/-- If a product of 32 bits overflows, the levels are not within what is allocated. -/
theorem overflow_bounds (hw : w < 2 ^ 32) (hh : h < 2 ^ 32) (hover : 2 ^ 32 ≤ w * h) :
    4 * area w h 1 ≤ w * h ∧ ∃ v, w * h ≤ 6 * area w h 1 + 3 * v ∧ 2 ^ 15 * v ≤ area w h 1 := by
  have htwo {a b : ℕ} (hb : b < 2 ^ 32) (h : 2 ^ 32 ≤ a * b) : 2 ≤ a := by
    by_contra hlt
    have hle : a * b ≤ 1 * b := Nat.mul_le_mul_right b (by omega)
    omega
  by_cases hbig : 2 ^ 16 ≤ h
  · obtain ⟨h₁, h₂, h₃⟩ := area_one_bounds (htwo hh hover) hbig
    exact ⟨h₁, w / 2, h₂, h₃⟩
  · have hwbig : 2 ^ 16 ≤ w := by
      by_contra hsmall
      have hle : w * h ≤ 2 ^ 16 * (2 ^ 16 - 1) := Nat.mul_le_mul (by omega) (by omega)
      omega
    rw [Nat.mul_comm] at hover
    obtain ⟨h₁, h₂, h₃⟩ := area_one_bounds (htwo hw hover) hwbig
    rw [Nat.mul_comm w h, area_comm]
    exact ⟨h₁, h / 2, h₂, h₃⟩

theorem levelOffset_mono (w h : ℕ) {i j : ℕ} (hij : i ≤ j) :
    levelOffset w h i ≤ levelOffset w h j :=
  sum_le_sum_of_subset (range_subset_range.mpr hij)

/-- **No product overflows** if more than one level is where it should be. -/
theorem product_lt_of_fits {t : ℕ} (hw : w < 2 ^ 32) (hh : h < 2 ^ 32) (ht : t < 2 ^ 32)
    (hpx : 0 < px) (hn : 2 ≤ n)
    (hfit : ∀ i, i + 1 < n → i < 2 → levelSize w h px i ≤ 4 * (area w h i % 2 ^ 32))
    (hin : levelOffset w h (n - 1) + levelSize w h px (n - 1) ≤ allocated (t * px) n) :
    w * h < 2 ^ 32 := by
  by_contra hover
  have hover : 2 ^ 32 ≤ w * h := Nat.not_lt.mp hover
  have hfirst : w * h * px ≤ 4 * (w * h % 2 ^ 32) := by
    have h₀ := (area_mul_le_levelSize w h px 0).trans (hfit 0 (by omega) (by decide))
    rwa [area_zero] at h₀
  have hone : px = 1 := by
    by_contra hne
    have htwo : w * h * 2 ≤ w * h * px := Nat.mul_le_mul_left _ (by omega)
    omega
  subst hone
  rw [Nat.mul_one] at hfirst hin
  obtain ⟨hquarter, v, hsixth, hv⟩ := overflow_bounds hw hh hover
  have hquotient : 1 ≤ w * h / 2 ^ 32 := Nat.div_pos hover (Nat.two_pow_pos 32)
  have hsize := area_mul_le_levelSize w h 1 1
  have hoffset : levelOffset w h 1 = 4 * (w * h % 2 ^ 32) := by
    rw [levelOffset, sum_range_one, area_zero]
  obtain rfl | hmore := Nat.eq_or_lt_of_le hn
  · have halloc : allocated t 2 = t + t / 2 := by
      simp [allocated, sum_range_succ]
    change levelOffset w h 1 + levelSize w h 1 1 ≤ allocated t 2 at hin
    rw [halloc, hoffset] at hin
    omega
  · have hsecond : levelOffset w h 2 ≤ levelOffset w h (n - 1) := levelOffset_mono w h (by omega)
    have htwo : levelOffset w h 2 = 4 * (w * h % 2 ^ 32) + 4 * (area w h 1 % 2 ^ 32) := by
      rw [levelOffset, sum_range_succ, ← levelOffset, hoffset]
    have halloc : allocated t n ≤ 2 * t := by
      have hbound := allocated_bounds t (n - 1)
      rw [Nat.sub_add_cancel (by omega)] at hbound
      exact (Nat.le_add_right ..).trans hbound
    have htotal : 4 * (w * h % 2 ^ 32) + 4 * (area w h 1 % 2 ^ 32) < 2 ^ 33 := by omega
    have hsmall : w * h < 2 ^ 33 := by omega
    have hmod : area w h 1 % 2 ^ 32 = area w h 1 := Nat.mod_eq_of_lt (by omega)
    rw [hmod] at htotal
    omega

/-- With pixels in both directions and no overflow, the areas are what they should be. -/
theorem levelOffset_eq (hproduct : w * h < 2 ^ 32) (i : ℕ) :
    levelOffset w h i = ∑ j ∈ range i, 4 * area w h j :=
  sum_congr rfl fun j _ => by rw [Nat.mod_eq_of_lt ((area_le w h j).trans_lt hproduct)]

/-- **Levels that are where they should be fit.** The levels from number 33 on do not matter. -/
theorem levelsFit_of_fits (hw : w < 2 ^ 32) (hh : h < 2 ^ 32) (hpx : 0 < px)
    (hfit : ∀ i, i + 1 < n → i ≤ 31 → levelSize w h px i ≤ 4 * (area w h i % 2 ^ 32))
    (hin : ∀ i < n, i ≤ 32 → levelOffset w h i + levelSize w h px i ≤
      allocated (w * h * d % 2 ^ 32 * px) n) : LevelsFit w h d px n := by
  cases n with
  | zero => trivial
  | succ n =>
    cases n with
    | zero =>
      have hsize : max 1 w * max 1 h * px ≤ w * h * d % 2 ^ 32 * px := by
        simpa [levelOffset, levelSize, allocated] using hin 0 Nat.one_pos (Nat.zero_le _)
      have hle : max 1 w * max 1 h ≤ w * h * d % 2 ^ 32 := Nat.le_of_mul_le_mul_right hsize hpx
      have hpos : 0 < w * h := by
        by_contra hzero
        rw [Nat.eq_zero_of_not_pos hzero, Nat.zero_mul, Nat.zero_mod] at hle
        have := Nat.mul_pos (Nat.lt_of_lt_of_le Nat.one_pos (le_max_left 1 w))
          (Nat.lt_of_lt_of_le Nat.one_pos (le_max_left 1 h))
        omega
      exact ⟨hpos, (Nat.mul_le_mul (le_max_right 1 w) (le_max_right 1 h)).trans hle⟩
    | succ k =>
      have hk : k ≤ 31 := by
        -- a texture with a pixel in level 31 is too large for level 0
        by_contra hk
        obtain ⟨hwide, hhigh⟩ := pixels_of_fits hpx (hfit 31 (by omega) le_rfl)
        have hzero := hfit 0 (by omega) (Nat.zero_le _)
        have hle := (Nat.le_mul_of_pos_right (w * h) hpx).trans
          ((area_zero w h ▸ area_mul_le_levelSize w h px 0).trans hzero)
        have hlarge : 2 ^ 31 * 2 ^ 31 ≤ w * h := Nat.mul_le_mul hwide hhigh
        have hmod := Nat.mod_lt (area w h 0) (Nat.two_pow_pos 32)
        omega
      obtain ⟨hkw, hkh⟩ := pixels_of_fits hpx (hfit k (Nat.lt_succ_self _) hk)
      have hlast := hin (k + 1) (Nat.lt_succ_self _) (Nat.succ_le_succ hk)
      have hproduct : w * h < 2 ^ 32 :=
        product_lt_of_fits hw hh (Nat.mod_lt _ (Nat.two_pow_pos 32)) hpx (Nat.le_add_left 2 k)
          (fun i hi hlt => hfit i hi (by omega)) hlast
      refine ⟨px_le_of_fits hpx (hfit k (Nat.lt_succ_self _) hk), hproduct, hkw, hkh, ?_⟩
      rwa [levelOffset_eq hproduct] at hlast

/-- A level ends before the next one begins. -/
theorem LevelsFit.level_le {i : ℕ} (hfit : LevelsFit w h d px n) (hi : i + 1 < n) :
    levelOffset w h i + levelSize w h px i ≤ levelOffset w h (i + 1) := by
  obtain ⟨k, rfl⟩ : ∃ k, n = k + 2 := ⟨n - 2, by omega⟩
  obtain ⟨hpx, hproduct, hkw, hkh, -⟩ := hfit
  have hpow : 2 ^ i ≤ 2 ^ k := Nat.pow_le_pow_right (by decide) (by omega)
  have hmod : area w h i % 2 ^ 32 = area w h i :=
    Nat.mod_eq_of_lt ((area_le w h i).trans_lt hproduct)
  rw [levelOffset, levelOffset, sum_range_succ, hmod,
    levelSize_of_le (hpow.trans hkw) (hpow.trans hkh), Nat.mul_comm]
  exact Nat.add_le_add_left (Nat.mul_le_mul_right _ hpx) _

/-- A level ends before every later one begins. -/
theorem LevelsFit.before {i j : ℕ} (hfit : LevelsFit w h d px n) (hij : i < j) (hj : j < n) :
    levelOffset w h i + levelSize w h px i ≤ levelOffset w h j :=
  (hfit.level_le (by omega)).trans (levelOffset_mono w h hij)

/-- The last level is within what is allocated. -/
theorem LevelsFit.last_le (hpos : 0 < n) (hfit : LevelsFit w h d px n) :
    levelOffset w h (n - 1) + levelSize w h px (n - 1) ≤
      allocated (w * h * d % 2 ^ 32 * px) n := by
  cases n with
  | zero => exact absurd hpos (Nat.lt_irrefl 0)
  | succ n =>
    cases n with
    | zero =>
      obtain ⟨hpixels, hle⟩ := hfit
      obtain ⟨hw, hh⟩ := Nat.mul_ne_zero_iff.mp hpixels.ne'
      have hsize : levelSize w h px 0 = area w h 0 * px :=
        levelSize_of_le (Nat.pos_of_ne_zero hw) (Nat.pos_of_ne_zero hh)
      calc levelOffset w h 0 + levelSize w h px 0 = w * h * px := by
            rw [hsize, area_zero, levelOffset, sum_range_zero, Nat.zero_add]
        _ ≤ w * h * d % 2 ^ 32 * px := Nat.mul_le_mul_right px hle
        _ = allocated (w * h * d % 2 ^ 32 * px) 1 := (allocated_one _).symm
    | succ k =>
      obtain ⟨-, hproduct, -, -, hlast⟩ := hfit
      rwa [Nat.add_sub_cancel, levelOffset_eq hproduct]

/-- Every level is within what is allocated. -/
theorem LevelsFit.le_allocated {i : ℕ} (hfit : LevelsFit w h d px n) (hi : i < n) :
    levelOffset w h i + levelSize w h px i ≤ allocated (w * h * d % 2 ^ 32 * px) n := by
  have hlast := hfit.last_le (Nat.zero_lt_of_lt hi)
  obtain rfl | hlt := Nat.eq_or_lt_of_le (Nat.le_sub_one_of_lt hi)
  · exact hlast
  · have hbefore := hfit.before hlt (by omega)
    omega

/-- There are 33 levels at most, if they fit. -/
theorem LevelsFit.levels_le (hw : w < 2 ^ 32) (hfit : LevelsFit w h d px n) : n ≤ 33 := by
  by_contra hn
  obtain ⟨k, rfl⟩ : ∃ k, n = k + 2 := ⟨n - 2, by omega⟩
  have hpow : 2 ^ 32 ≤ 2 ^ k := Nat.pow_le_pow_right (by decide) (by omega)
  exact absurd (hpow.trans hfit.2.2.1) (Nat.not_le.mpr hw)

/-- What is allocated for a level is what it needs, with four bytes a pixel and depth one. -/
theorem four_mul_area_le (w h i : ℕ) : 4 * area w h i ≤ w * h * 4 / 2 ^ i := by
  rw [Nat.le_div_iff_mul_le (Nat.two_pow_pos i)]
  calc 4 * area w h i * 2 ^ i = w / 2 ^ i * 2 ^ i * (h / 2 ^ i) * 4 := by rw [area]; ring
    _ ≤ w * h * 4 := Nat.mul_le_mul_right 4
        (Nat.mul_le_mul (Nat.div_mul_le_self ..) (Nat.div_le_self ..))

/-- The same for the last level, which may have less than one pixel in a direction. -/
theorem last_levelSize_le {k : ℕ} (hw : 2 ^ k ≤ w) (hh : 2 ^ k ≤ h) (hone : k = 0 → w * h ≠ 1) :
    levelSize w h 4 (k + 1) ≤ w * h * 4 / 2 ^ (k + 1) := by
  have hw₁ : 1 ≤ w := Nat.one_le_two_pow.trans hw
  have hh₁ : 1 ≤ h := Nat.one_le_two_pow.trans hh
  have hpixels {a : ℕ} (ha : 1 ≤ a / 2 ^ (k + 1)) : max 1 (a / 2 ^ (k + 1)) * 2 ^ (k + 1) ≤ a := by
    rw [max_eq_right ha]
    exact Nat.div_mul_le_self ..
  have hmax {a : ℕ} (ha : 1 ≤ a) : max 1 (a / 2 ^ (k + 1)) ≤ a :=
    max_le ha (Nat.div_le_self ..)
  have hle : max 1 (w / 2 ^ (k + 1)) * max 1 (h / 2 ^ (k + 1)) * 2 ^ (k + 1) ≤ w * h := by
    by_cases hwide : 1 ≤ w / 2 ^ (k + 1)
    · rw [Nat.mul_right_comm]
      exact Nat.mul_le_mul (hpixels hwide) (hmax hh₁)
    by_cases hhigh : 1 ≤ h / 2 ^ (k + 1)
    · rw [Nat.mul_assoc]
      exact Nat.mul_le_mul (hmax hw₁) (hpixels hhigh)
    · rw [max_eq_left (by omega), max_eq_left (by omega), Nat.one_mul]
      cases k with
      | zero =>
        have hpos := Nat.mul_pos hw₁ hh₁
        have hne := hone rfl
        omega
      | succ k =>
        calc 2 ^ (k + 1 + 1) ≤ 2 ^ (k + 1) * 2 ^ (k + 1) := by
              rw [← Nat.pow_add]
              exact Nat.pow_le_pow_right (by decide) (by omega)
          _ ≤ w * h := Nat.mul_le_mul hw hh
  rw [Nat.le_div_iff_mul_le (Nat.two_pow_pos _), levelSize]
  calc max 1 (w / 2 ^ (k + 1)) * max 1 (h / 2 ^ (k + 1)) * 4 * 2 ^ (k + 1) =
        max 1 (w / 2 ^ (k + 1)) * max 1 (h / 2 ^ (k + 1)) * 2 ^ (k + 1) * 4 := by ring
    _ ≤ w * h * 4 := Nat.mul_le_mul_right 4 hle

/-- **Depth one**: more than one level of a texture fits only if its pixels have four bytes, and
then it does if no level but the last one has less than one pixel in a direction, unless there
are two levels and one pixel. -/
theorem levelsFit_depth_one (j k : ℕ) :
    LevelsFit w h 1 (2 ^ j) (k + 2) ↔
      j = 2 ∧ w * h < 2 ^ 32 ∧ 2 ^ k ≤ w ∧ 2 ^ k ≤ h ∧ (k = 0 → w * h ≠ 1) := by
  constructor
  · rintro ⟨hpx, hproduct, hw, hh, hlast⟩
    rw [Nat.mul_one, Nat.mod_eq_of_lt hproduct] at hlast
    have hpos : 0 < w * h := Nat.mul_pos (Nat.one_le_two_pow.trans hw) (Nat.one_le_two_pow.trans hh)
    have hfirst : 4 * (w * h) ≤ ∑ i ∈ range (k + 1), 4 * area w h i := by
      rw [← area_zero w h]
      exact single_le_sum_of_canonicallyOrdered (f := fun i => 4 * area w h i)
        (mem_range.mpr (Nat.succ_pos k))
    have htotal : allocated (w * h * 2 ^ j) (k + 2) ≤ 2 * (w * h * 2 ^ j) :=
      (Nat.le_add_right ..).trans (allocated_bounds _ (k + 1))
    have hsize := px_le_levelSize w h (2 ^ j) (k + 1)
    have hj : j ≤ 2 := (Nat.pow_le_pow_iff_right (by decide)).mp hpx
    have htwo : j = 2 := by
      by_contra hne
      have hle : w * h * 2 ^ j ≤ w * h * 2 ^ 1 :=
        Nat.mul_le_mul_left _ (Nat.pow_le_pow_right (by decide) (by omega))
      have := Nat.one_le_two_pow (n := j)
      omega
    subst htwo
    refine ⟨rfl, hproduct, hw, hh, ?_⟩
    rintro rfl hone
    have halloc : allocated (w * h * 2 ^ 2) (0 + 2) = 6 := by
      rw [hone]
      decide
    omega
  · rintro ⟨rfl, hproduct, hw, hh, hone⟩
    refine ⟨le_rfl, hproduct, hw, hh, ?_⟩
    rw [Nat.mul_one, Nat.mod_eq_of_lt hproduct, allocated, sum_range_succ _ (k + 1)]
    exact Nat.add_le_add (sum_le_sum fun i _ => four_mul_area_le w h i)
      (last_levelSize_le hw hh hone)

end PrismaticOS.Gpu
