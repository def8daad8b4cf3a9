import Mathlib.Algebra.Ring.GeomSum
import Mathlib.NumberTheory.Multiplicity
import Mathlib.Order.Interval.Finset.Nat

/-!
# Congruential sequences

Sequences of numbers in which each is `a * x + c` of the one before it, modulo `m`. Such a sequence
is kept by a generator of pseudo-random numbers, in a word whose arithmetic wraps.

## What is proved

* `IsCongruential.modEq` — two sequences of the same coefficients that start alike stay alike.
* `IsCongruential.recurs_iff` — modulo a power of two, with `a = 1` modulo `4` and an odd `c`, the
  sequence is back after exactly the multiples of the modulus.
* `IsCongruential.bijOn` — so it takes every value once in a cycle.
* `IsCongruential.top_recurs_iff`, `IsCongruential.card_top` — its top bits have no shorter period
  than the sequence, and take every value equally often.
-/

namespace PrismaticOS.Library

/-- Each number of the sequence is `a * x + c` of the one before it, modulo `m`. -/
def IsCongruential (a c m : ℕ) (x : ℕ → ℕ) : Prop := ∀ n, x (n + 1) ≡ a * x n + c [MOD m]

variable {a c m k n p : ℕ} {x y : ℕ → ℕ}

/-- A sequence modulo `m` is one modulo each divisor of `m`. -/
theorem IsCongruential.of_dvd {d : ℕ} (h : IsCongruential a c m x) (hd : d ∣ m) :
    IsCongruential a c d x := fun n => (h n).of_dvd hd

/-- What comes after the first numbers is again such a sequence. -/
theorem IsCongruential.drop (h : IsCongruential a c m x) (n : ℕ) :
    IsCongruential a c m fun i => x (n + i) := fun i => h (n + i)

/-- **Sequences that start alike** stay alike. -/
theorem IsCongruential.modEq (hx : IsCongruential a c m x) (hy : IsCongruential a c m y)
    (h : x 0 ≡ y 0 [MOD m]) (n : ℕ) : x n ≡ y n [MOD m] := by
  induction n with
  | zero => exact h
  | succ n ih => exact (hx n).trans (((ih.mul_left a).add_right c).trans (hy n).symm)

/-! ### How far the sequence moves -/

/-- What `p` turns add to a number: a geometric sum times what one turn adds. -/
theorem IsCongruential.sub_modEq (h : IsCongruential a c m x) (n p : ℕ) :
    (x (n + p) : ℤ) - x n ≡ (∑ i ∈ Finset.range p, (a : ℤ) ^ i) * ((a - 1) * x n + c)
      [ZMOD m] := by
  induction p with
  | zero => simp
  | succ p ih =>
    have hturn : (x (n + p + 1) : ℤ) ≡ a * x (n + p) + c [ZMOD m] := by
      exact_mod_cast Int.natCast_modEq_iff.mpr (h (n + p))
    calc (x (n + p + 1) : ℤ) - x n
        ≡ a * x (n + p) + c - x n [ZMOD m] := hturn.sub_right _
      _ = a * (x (n + p) - x n) + ((a - 1) * x n + c) := by ring
      _ ≡ a * ((∑ i ∈ Finset.range p, (a : ℤ) ^ i) * ((a - 1) * x n + c)) +
            ((a - 1) * x n + c) [ZMOD m] := (ih.mul_left _).add_right _
      _ = (∑ i ∈ Finset.range (p + 1), (a : ℤ) ^ i) * ((a - 1) * x n + c) := by
          rw [Finset.sum_range_succ']
          simp only [pow_succ, pow_zero]
          rw [← Finset.sum_mul]
          ring

/-- A geometric sum is divisible by as many twos as the number of its terms. -/
theorem two_pow_dvd_geom_sum (ha : a % 4 = 1) :
    (2 : ℤ) ^ k ∣ ∑ i ∈ Finset.range p, (a : ℤ) ^ i ↔ 2 ^ k ∣ p := by
  obtain rfl | hne := eq_or_ne a 1
  · simp only [Nat.cast_one, one_pow, Finset.sum_const, Finset.card_range, nsmul_eq_mul, mul_one]
    exact_mod_cast Iff.rfl
  have hlift : emultiplicity (2 : ℤ) (∑ i ∈ Finset.range p, (a : ℤ) ^ i) =
      emultiplicity (2 : ℤ) p := by
    have hodd : ¬ (2 : ℤ) ∣ a := by omega
    have hsum := Int.two_pow_sub_pow' (x := (a : ℤ)) (y := 1) p (by omega) hodd
    rw [one_pow, ← mul_geom_sum, emultiplicity_mul Int.prime_two] at hsum
    have hfinite : FiniteMultiplicity (2 : ℤ) ((a : ℤ) - 1) :=
      Int.finiteMultiplicity_iff.mpr ⟨by decide, by omega⟩
    exact ENat.add_right_injective_of_ne_top
      (finiteMultiplicity_iff_emultiplicity_ne_top.mp hfinite) hsum
  rw [pow_dvd_iff_le_emultiplicity, hlift, ← pow_dvd_iff_le_emultiplicity]
  exact_mod_cast Iff.rfl

/-- **The period of the sequence** modulo a power of two: it is back at a number after exactly the
multiples of the modulus. -/
theorem IsCongruential.recurs_iff (h : IsCongruential a c (2 ^ k) x) (ha : a % 4 = 1)
    (hc : c % 2 = 1) (n p : ℕ) : x (n + p) ≡ x n [MOD 2 ^ k] ↔ 2 ^ k ∣ p := by
  -- one turn adds an odd number, so the sum over `p` turns has the twos of `p`
  have hodd : ¬ (2 : ℤ) ∣ (a - 1) * x n + c := by
    have heven : (2 : ℤ) ∣ (a - 1) * x n := Dvd.dvd.mul_right (by omega) _
    omega
  have hsub := h.sub_modEq n p
  push_cast at hsub
  rw [Nat.ModEq.comm, Nat.modEq_iff_dvd, ← two_pow_dvd_geom_sum ha]
  push_cast
  rw [hsub.dvd_iff]
  exact ⟨fun hd => Int.prime_two.pow_dvd_of_dvd_mul_right k hodd hd, fun hd => hd.mul_right _⟩

/-! ### A cycle -/

/-- No value comes twice in a cycle. -/
theorem IsCongruential.injOn (h : IsCongruential a c (2 ^ k) x) (ha : a % 4 = 1)
    (hc : c % 2 = 1) (n : ℕ) :
    Set.InjOn (fun i => x (n + i) % 2 ^ k) (Finset.range (2 ^ k)) := by
  intro i hi j hj hij
  wlog hle : i ≤ j generalizing i j
  · exact (this hj hi hij.symm (by omega)).symm
  have hback : x (n + i + (j - i)) ≡ x (n + i) [MOD 2 ^ k] := by
    rw [Nat.add_assoc, Nat.add_sub_cancel' hle]
    exact hij.symm
  have hdvd := (h.recurs_iff ha hc (n + i) (j - i)).mp hback
  have hlt : j - i < 2 ^ k := (Nat.sub_le j i).trans_lt (Finset.mem_range.mp hj)
  have hzero := Nat.eq_zero_of_dvd_of_lt hdvd hlt
  omega

/-- **Every value** comes in a cycle. -/
theorem IsCongruential.image_eq (h : IsCongruential a c (2 ^ k) x) (ha : a % 4 = 1)
    (hc : c % 2 = 1) (n : ℕ) :
    (Finset.range (2 ^ k)).image (fun i => x (n + i) % 2 ^ k) = Finset.range (2 ^ k) := by
  apply Finset.eq_of_subset_of_card_le
  · intro v hv
    obtain ⟨i, -, rfl⟩ := Finset.mem_image.mp hv
    exact Finset.mem_range.mpr (Nat.mod_lt _ (Nat.two_pow_pos k))
  · rw [Finset.card_image_of_injOn (h.injOn ha hc n)]

/-! ### The top bits -/

/-- **The period of the top bits** is that of the sequence. -/
theorem IsCongruential.top_recurs_iff {j : ℕ} (h : IsCongruential a c (2 ^ k) x) (ha : a % 4 = 1)
    (hc : c % 2 = 1) (hj : j < k) :
    (∀ n, x (n + p) % 2 ^ k / 2 ^ j = x n % 2 ^ k / 2 ^ j) ↔ 2 ^ k ∣ p := by
  constructor
  · intro hall
    have hmul : ∀ i n, x (n + i * p) % 2 ^ k / 2 ^ j = x n % 2 ^ k / 2 ^ j := by
      intro i n
      induction i with
      | zero => simp
      | succ i ih => rw [Nat.succ_mul, ← Nat.add_assoc, hall, ih]
    obtain rfl | hp := Nat.eq_zero_or_pos p
    · exact dvd_zero _
    obtain ⟨e, odd, hodd, rfl⟩ := Nat.exists_eq_two_pow_mul_odd hp.ne'
    by_contra hno
    have he : e < k := by
      by_contra hle
      exact hno (Dvd.dvd.mul_right (pow_dvd_pow 2 (not_lt.mp hle)) _)
    -- a multiple of the period that moves only the highest bit
    have hq : 2 ^ (k - 1 - e) * (2 ^ e * odd) = 2 ^ (k - 1) * odd := by
      rw [← Nat.mul_assoc, ← pow_add, Nat.sub_add_cancel (by omega)]
    have hlow : x (2 ^ (k - 1) * odd) ≡ x 0 [MOD 2 ^ (k - 1)] := by
      have hd := h.of_dvd (pow_dvd_pow 2 (Nat.sub_le k 1))
      simpa using (hd.recurs_iff ha hc 0 (2 ^ (k - 1) * odd)).mpr (dvd_mul_right _ _)
    have htop := hmul (2 ^ (k - 1 - e)) 0
    rw [hq, Nat.zero_add] at htop
    have hmod : x (2 ^ (k - 1) * odd) % 2 ^ k % 2 ^ j = x 0 % 2 ^ k % 2 ^ j := by
      rw [Nat.mod_mod_of_dvd _ (pow_dvd_pow 2 hj.le), Nat.mod_mod_of_dvd _ (pow_dvd_pow 2 hj.le)]
      exact hlow.of_dvd (pow_dvd_pow 2 (by omega))
    have hback : x (0 + 2 ^ (k - 1) * odd) ≡ x 0 [MOD 2 ^ k] := by
      rw [Nat.zero_add, Nat.ModEq, ← Nat.div_add_mod (x _ % 2 ^ k) (2 ^ j), htop, hmod,
        Nat.div_add_mod]
    have hdvd := (h.recurs_iff ha hc 0 _).mp hback
    rw [show k = k - 1 + 1 by omega, pow_succ, Nat.add_sub_cancel] at hdvd
    exact (Nat.not_even_iff_odd.mpr hodd)
      (even_iff_two_dvd.mpr (Nat.dvd_of_mul_dvd_mul_left (Nat.two_pow_pos _) hdvd))
  · intro hd n
    rw [(h.recurs_iff ha hc n p).mpr hd]

/-- **The top bits take every value equally often** in a cycle. -/
theorem IsCongruential.card_top {j v : ℕ} (h : IsCongruential a c (2 ^ k) x) (ha : a % 4 = 1)
    (hc : c % 2 = 1) (hj : j ≤ k) (hv : v < 2 ^ (k - j)) (n : ℕ) :
    ((Finset.range (2 ^ k)).filter fun i => x (n + i) % 2 ^ k / 2 ^ j = v).card = 2 ^ j := by
  have hinj := (h.injOn ha hc n).mono (Finset.coe_subset.mpr
    (Finset.filter_subset (fun i => x (n + i) % 2 ^ k / 2 ^ j = v) _))
  have himage : ((Finset.range (2 ^ k)).filter fun i => x (n + i) % 2 ^ k / 2 ^ j = v).image
      (fun i => x (n + i) % 2 ^ k) = Finset.Ico (v * 2 ^ j) ((v + 1) * 2 ^ j) := by
    rw [← Finset.filter_image (p := fun s => s / 2 ^ j = v), h.image_eq ha hc]
    ext s
    have hle : (v + 1) * 2 ^ j ≤ 2 ^ k := by
      calc (v + 1) * 2 ^ j ≤ 2 ^ (k - j) * 2 ^ j := Nat.mul_le_mul_right _ hv
        _ = 2 ^ k := by rw [← pow_add, Nat.sub_add_cancel hj]
    have hpos := Nat.two_pow_pos j
    rw [Finset.mem_filter, Finset.mem_range, Finset.mem_Ico, Nat.div_eq_iff hpos]
    rw [Nat.succ_mul] at *
    omega
  rw [← Finset.card_image_of_injOn hinj, himage, Nat.card_Ico, Nat.succ_mul,
    Nat.add_sub_cancel_left]

end PrismaticOS.Library
