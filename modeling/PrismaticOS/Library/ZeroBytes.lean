import Mathlib.Data.Nat.Bitwise
import PrismaticOS.Library.Memory
import PrismaticOS.Library.Words

/-!
# Zero bytes of a word

Whether one of the bytes of a number is zero, found with a subtraction. One is subtracted from
every byte: if a byte is not zero the byte above it lends nothing, so that the top bit of its
difference is set only if it was set before. The first zero byte becomes 255.

`zeroByte_iff` is for numbers of any width. `zeroByte_word` and `byte_word` say what a program with
words of 64 bits computes.
-/

namespace PrismaticOS.Library

/-- The number of `n` bytes that are all 1. -/
def ones : ℕ → ℕ
  | 0 => 0
  | n + 1 => 1 + 256 * ones n

theorem ones_lt (n : ℕ) : ones n < 256 ^ n := by
  induction n with
  | zero => simp [ones]
  | succ n ih =>
    rw [ones, Nat.pow_succ']
    omega

theorem two_pow_bytes (n : ℕ) : 2 ^ (8 * n) = 256 ^ n := Nat.pow_mul 2 8 n

/-- Bits of a number whose lowest byte is `b`. -/
theorem testBit_byte_add (a i : ℕ) {b : ℕ} (hb : b < 256) :
    (b + 256 * a).testBit (8 * (i + 1) + 7) = a.testBit (8 * i + 7) := by
  rw [Nat.add_comm, Nat.testBit_two_pow_mul_add a (i := 8) hb, if_neg (by omega),
    show 8 * (i + 1) + 7 - 8 = 8 * i + 7 by omega]

theorem testBit_byte_low (a : ℕ) {b : ℕ} (hb : b < 256) :
    (b + 256 * a).testBit 7 = decide (128 ≤ b) := by
  rw [Nat.add_comm, Nat.testBit_two_pow_mul_add a (i := 8) hb, if_pos (by omega),
    Nat.testBit_eq_decide_div_mod_eq, decide_eq_decide]
  omega

/-- The lowest byte of the difference is 255 if it was zero. -/
theorem wsub_ones_zero (n a : ℕ) :
    ∃ c, wsub (8 * (n + 1)) (256 * a) (ones (n + 1)) = 255 + 256 * c := by
  have hones := ones_lt (n + 1)
  have hpow : 2 ^ (8 * (n + 1)) = 256 * 256 ^ n := by rw [two_pow_bytes, Nat.pow_succ']
  rw [Nat.pow_succ'] at hones
  rw [wsub, hpow, Nat.mod_eq_of_lt hones, Nat.mod_mul]
  have hlow : (256 * a + (256 * 256 ^ n - ones (n + 1))) % 256 = 255 := by
    simp only [ones] at hones ⊢
    omega
  exact ⟨_, by rw [hlow]⟩

/-- The lowest byte lends nothing otherwise. -/
theorem wsub_ones_byte (n a : ℕ) {b : ℕ} (hb : 0 < b) (hlt : b < 256) :
    wsub (8 * (n + 1)) (b + 256 * a) (ones (n + 1)) =
      (b - 1) + 256 * wsub (8 * n) a (ones n) := by
  have hones := ones_lt n
  have hpow : 2 ^ (8 * (n + 1)) = 256 * 256 ^ n := by rw [two_pow_bytes, Nat.pow_succ']
  have hsum : b + 256 * a + (256 * 256 ^ n - ones (n + 1)) =
      (b - 1) + 256 * (a + (256 ^ n - ones n)) := by
    simp only [ones]
    omega
  have hones' : ones (n + 1) < 256 * 256 ^ n := by
    simp only [ones]
    omega
  rw [wsub, wsub, hpow, two_pow_bytes, Nat.mod_eq_of_lt hones', Nat.mod_eq_of_lt hones, hsum,
    Nat.mod_mul, Nat.add_mul_mod_self_left, Nat.add_mul_div_left _ _ (by decide : 0 < 256),
    Nat.mod_eq_of_lt (by omega), Nat.div_eq_of_lt (by omega), Nat.zero_add]

/-- **A word has a zero byte** exactly if the difference has the top bit of some byte that it has
not itself. -/
theorem zeroByte_iff (m : Mem) (a n : ℕ) :
    (∃ i < n, (wsub (8 * n) (loadLE m a n) (ones n)).testBit (8 * i + 7) = true ∧
      (loadLE m a n).testBit (8 * i + 7) = false) ↔ ∃ i < n, m (a + i) = 0 := by
  induction n generalizing a with
  | zero => exact ⟨fun ⟨i, hi, _⟩ => absurd hi (Nat.not_lt_zero i), fun ⟨i, hi, _⟩ =>
      absurd hi (Nat.not_lt_zero i)⟩
  | succ n ih =>
    have hbyte : (m a).toNat < 256 := (m a).toNat_lt
    rw [loadLE, Nat.exists_lt_succ_left (p := fun i => m (a + i) = 0),
      Nat.exists_lt_succ_left]
    by_cases hzero : m a = 0
    · obtain ⟨c, hc⟩ := wsub_ones_zero n (loadLE m (a + 1) n)
      refine iff_of_true (.inl ?_) (.inl hzero)
      rw [hzero, UInt8.toNat_zero, Nat.zero_add, hc]
      exact ⟨testBit_byte_low c (by decide), by
        rw [← Nat.zero_add (256 * _)]; exact testBit_byte_low _ (by decide)⟩
    · have hpos : 0 < (m a).toNat := Nat.pos_of_ne_zero fun h => hzero (UInt8.toNat_inj.mp h)
      have hsub : (m a).toNat - 1 < 256 := by omega
      have hlow : ¬ ((((m a).toNat - 1) + 256 * wsub (8 * n) (loadLE m (a + 1) n) (ones n)).testBit
          7 = true ∧ ((m a).toNat + 256 * loadLE m (a + 1) n).testBit 7 = false) := by
        rw [testBit_byte_low _ hsub, testBit_byte_low _ hbyte, decide_eq_true_eq,
          decide_eq_false_iff_not]
        omega
      rw [wsub_ones_byte n _ hpos hbyte, or_iff_right hlow,
        or_iff_right (show ¬ m (a + 0) = 0 from hzero)]
      simp only [testBit_byte_add _ _ hsub, testBit_byte_add _ _ hbyte, ih (a + 1),
        show ∀ i, a + 1 + i = a + (i + 1) from fun i => by omega]

/-! ### Words of 64 bits -/

/-- The eight bytes at `a`, as a word. -/
def loadWord64 (m : Mem) (a : ℕ) : UInt64 := UInt64.ofNat (loadLE m a 8)

theorem toNat_loadWord64 (m : Mem) (a : ℕ) : (loadWord64 m a).toNat = loadLE m a 8 := by
  have hlt : loadLE m a 8 < 2 ^ 64 := loadLE_lt m a 8
  rw [loadWord64, UInt64.toNat_ofNat', Nat.mod_eq_of_lt hlt]

/-- The top bits of the bytes. -/
theorem testBit_tops (j : ℕ) :
    (0x8080808080808080 : ℕ).testBit j = true ↔ ∃ i < 8, j = 8 * i + 7 := by
  by_cases hj : j < 64
  · revert j
    decide
  · have hlt : (0x8080808080808080 : ℕ) < 2 ^ j :=
      lt_of_lt_of_le (by decide) (Nat.pow_le_pow_right (by decide) (Nat.le_of_not_lt hj))
    rw [Nat.testBit_lt_two_pow hlt]
    exact iff_of_false Bool.false_ne_true (by omega)

/-- **The test for a zero byte.** -/
theorem zeroByte_word (m : Mem) (a : ℕ) :
    (loadWord64 m a - 0x0101010101010101) &&& ~~~ loadWord64 m a &&& 0x8080808080808080 ≠ 0 ↔
      ∃ i < 8, m (a + i) = 0 := by
  have hword := loadLE_lt m a 8
  have hdiff : (loadWord64 m a - 0x0101010101010101).toNat =
      wsub (8 * 8) (loadLE m a 8) (ones 8) := by
    rw [UInt64.toNat_sub, toNat_loadWord64, wsub, Nat.add_comm]
    rfl
  have hnot (i : ℕ) (hi : i < 8) : (~~~ loadWord64 m a).toNat.testBit (8 * i + 7) =
      !(loadLE m a 8).testBit (8 * i + 7) := by
    rw [UInt64.toNat_not, toNat_loadWord64, Nat.sub_sub, Nat.add_comm 1,
      show UInt64.size = 2 ^ 64 from rfl, Nat.testBit_two_pow_sub_succ hword,
      decide_eq_true (by omega), Bool.true_and]
  rw [← zeroByte_iff, ne_eq, ← UInt64.toNat_inj, UInt64.toNat_and, UInt64.toNat_and, hdiff]
  constructor
  · intro h
    obtain ⟨j, hj⟩ := Nat.exists_testBit_of_ne_zero h
    rw [Nat.testBit_and, Nat.testBit_and, Bool.and_eq_true, Bool.and_eq_true] at hj
    obtain ⟨⟨hj, hj'⟩, htop⟩ := hj
    obtain ⟨i, hi, rfl⟩ := (testBit_tops j).mp htop
    rw [hnot i hi, Bool.not_eq_true'] at hj'
    exact ⟨i, hi, hj, hj'⟩
  · rintro ⟨i, hi, hj, hj'⟩ h
    have htop : (UInt64.toNat 0x8080808080808080).testBit (8 * i + 7) = true :=
      (testBit_tops _).mpr ⟨i, hi, rfl⟩
    have hbit := congrArg (Nat.testBit · (8 * i + 7)) h
    simp only [Nat.testBit_and, hj, hnot i hi, hj', htop] at hbit
    simp at hbit

/-- Eight bits, where they are. -/
theorem and_byte_shift (x i : ℕ) :
    x &&& 0xFF <<< (8 * i) = (x / 256 ^ i % 256) <<< (8 * i) := by
  have hlow : x / 256 ^ i % 256 = x >>> (8 * i) &&& 0xFF := by
    rw [Nat.shiftRight_eq_div_pow, two_pow_bytes, Nat.and_two_pow_sub_one_eq_mod _ 8]
  rw [hlow]
  refine Nat.eq_of_testBit_eq fun j => ?_
  simp only [Nat.testBit_and, Nat.testBit_shiftLeft, Nat.testBit_shiftRight]
  by_cases hj : 8 * i ≤ j
  · rw [Nat.add_sub_of_le hj, Bool.and_left_comm]
  · rw [decide_eq_false hj, Bool.false_and, Bool.false_and, Bool.and_false]

/-- **One byte of a word**, found with a mask. -/
theorem byte_word (m : Mem) (a i : ℕ) (mask : UInt64) (hi : i < 8)
    (hmask : mask.toNat = 0xFF <<< (8 * i)) : loadWord64 m a &&& mask = 0 ↔ m (a + i) = 0 := by
  have hbyte := loadLE_part m a (n := 8) (i := i) (k := 1) (by omega)
  rw [loadLE, loadLE, Nat.mul_zero, Nat.add_zero, Nat.pow_one] at hbyte
  rw [← UInt64.toNat_inj, ← UInt8.toNat_inj, UInt64.toNat_and, hmask, toNat_loadWord64,
    and_byte_shift, ← hbyte, UInt64.toNat_zero, UInt8.toNat_zero, Nat.shiftLeft_eq_zero_iff]

end PrismaticOS.Library
