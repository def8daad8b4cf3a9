import Mathlib.Data.Nat.Basic
import Mathlib.Tactic.Positivity
import Mathlib.Tactic.Zify

/-!
# Machine words

Unsigned arithmetic of a fixed width, on natural numbers: every operation is the
exact one reduced to the width. `C` computes its unsigned types and, on the machines
modelled here, its pointers this way.
-/

namespace PrismaticOS.Library

/-- A natural number as a word of `w` bits. -/
def wrap (w n : ℕ) : ℕ := n % 2 ^ w

/-- The difference of two words of `w` bits. -/
def wsub (w a b : ℕ) : ℕ := (a + (2 ^ w - b % 2 ^ w)) % 2 ^ w

/-- An integer as a word of `w` bits. -/
def ofInt (w : ℕ) (z : ℤ) : ℕ := (z % 2 ^ w).toNat

/-- A natural number as a signed word of `w` bits. -/
def toSigned (w n : ℕ) : ℤ := if wrap w n < 2 ^ (w - 1) then wrap w n else wrap w n - 2 ^ w

/-- How many addresses there are. A walk over nodes that takes more steps visits some
node twice, and never ends. -/
@[irreducible] def addresses : ℕ := 2 ^ 64

theorem addresses_pos : 0 < addresses := by
  rw [addresses]
  exact Nat.two_pow_pos 64

theorem lt_addresses {n : ℕ} (h : n < 2 ^ 64) : n < addresses := by
  rwa [addresses]

theorem wrap_of_lt {w n : ℕ} (h : n < 2 ^ w) : wrap w n = n := Nat.mod_eq_of_lt h

theorem wrap_lt (w n : ℕ) : wrap w n < 2 ^ w := Nat.mod_lt _ (Nat.two_pow_pos w)

theorem ofInt_lt (w : ℕ) (z : ℤ) : ofInt w z < 2 ^ w := by
  have h₀ : (0 : ℤ) < 2 ^ w := by positivity
  have h := Int.emod_lt_of_pos z h₀
  have h₁ := Int.emod_nonneg z h₀.ne'
  unfold ofInt
  zify
  rw [Int.toNat_of_nonneg h₁]
  exact h

/-- A difference that is not negative is exact. -/
theorem wsub_of_le {w a b : ℕ} (ha : a < 2 ^ w) (h : b ≤ a) : wsub w a b = a - b := by
  unfold wsub
  rw [Nat.mod_eq_of_lt (a := b) (by omega), show a + (2 ^ w - b) = a - b + 2 ^ w by omega,
    Nat.add_mod_right, Nat.mod_eq_of_lt (by omega)]

/-- A difference of two words, seen from the range that the second one starts. -/
theorem wsub_lt_iff {w a b n : ℕ} (ha : a < 2 ^ w) (hb : b < 2 ^ w) (hn : b + n ≤ 2 ^ w) :
    wsub w a b < n ↔ b ≤ a ∧ a < b + n := by
  by_cases h : b ≤ a
  · rw [wsub_of_le ha h]
    omega
  · unfold wsub
    rw [Nat.mod_eq_of_lt hb, Nat.mod_eq_of_lt (by omega)]
    omega

/-- A number is its signed word exactly if it is below the half. -/
theorem toSigned_eq_self_iff {w n : ℕ} : toSigned w n = n ↔ n < 2 ^ (w - 1) := by
  have hlt := wrap_lt w n
  have hle : 2 ^ (w - 1) ≤ 2 ^ w := Nat.pow_le_pow_right (by decide) (Nat.sub_le w 1)
  have hcast : ((2 ^ w : ℕ) : ℤ) = 2 ^ w := by push_cast; rfl
  unfold toSigned
  constructor
  · intro h
    split at h
    · rename_i hhalf
      rwa [Int.ofNat_inj.mp h] at hhalf
    · omega
  · intro h
    have hself : wrap w n = n := wrap_of_lt (h.trans_le hle)
    rw [hself, if_pos h]

/-- The signed word of a number is -1 exactly if the word is the largest. -/
theorem toSigned_eq_neg_one_iff {w n : ℕ} (hw : 1 < w) :
    toSigned w n = -1 ↔ wrap w n = 2 ^ w - 1 := by
  have hlt := wrap_lt w n
  have hhalf : 2 ^ (w - 1) < 2 ^ w := Nat.pow_lt_pow_right (by decide) (by omega)
  have hcast : ((2 ^ w : ℕ) : ℤ) = 2 ^ w := by push_cast; rfl
  unfold toSigned
  split <;> omega

end PrismaticOS.Library
