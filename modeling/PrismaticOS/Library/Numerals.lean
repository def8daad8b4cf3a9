import Mathlib.Data.Nat.Digits.Lemmas

/-!
# Numerals

The numeral of a number in a base, in any alphabet, and the loop that writes one from its end:
it divides by the base until nothing is left.

## What is proved

* `writeDigits_eq` — what the loop writes: the digits, and nothing for zero.
* `numeral_eq_iff` — two alphabets that do not use one character for different digits have a
  numeral in common exactly if it is that of one number, whose digits they write the same way.
-/

namespace PrismaticOS.Library

variable {α : Type*} {b m n : ℕ}

/-- The digits of a number, the leading one first. Zero has one digit. -/
def numeralDigits (b n : ℕ) : List ℕ := if n = 0 then [0] else (Nat.digits b n).reverse

/-- The numeral of a number. -/
def numeral (digit : ℕ → α) (b n : ℕ) : List α := (numeralDigits b n).map digit

/-- The digits of `n` before what is written already, as long as there are any. -/
def writeDigits (digit : ℕ → α) (b n : ℕ) (cells : List α) : List α :=
  if 0 < n ∧ 1 < b then writeDigits digit b (n / b) (digit (n % b) :: cells) else cells
termination_by n
decreasing_by
  rename_i h
  exact Nat.div_lt_self h.1 h.2

/-- **The loop writes the digits.** -/
theorem writeDigits_eq (digit : ℕ → α) (hb : 1 < b) (n : ℕ) (cells : List α) :
    writeDigits digit b n cells = (Nat.digits b n).reverse.map digit ++ cells := by
  induction n using Nat.strong_induction_on generalizing cells with
  | _ n ih =>
    rw [writeDigits]
    split_ifs with h
    · rw [ih (n / b) (Nat.div_lt_self h.1 hb), Nat.digits_def' hb h.1]
      simp
    · have hn : n = 0 := by
        by_contra hn
        exact h ⟨Nat.pos_of_ne_zero hn, hb⟩
      simp [hn]

theorem numeral_of_pos (digit : ℕ → α) (b : ℕ) (h : 0 < n) :
    numeral digit b n = (Nat.digits b n).reverse.map digit := by
  rw [numeral, numeralDigits, if_neg h.ne']

theorem numeralDigits_ne_nil (b n : ℕ) : numeralDigits b n ≠ [] := by
  rw [numeralDigits]
  split_ifs with h
  · exact List.cons_ne_nil 0 []
  · rwa [ne_eq, List.reverse_eq_nil_iff, Nat.digits_eq_nil_iff_eq_zero]

theorem numeral_ne_nil (digit : ℕ → α) (b n : ℕ) : numeral digit b n ≠ [] := by
  rw [numeral, ne_eq, List.map_eq_nil_iff]
  exact numeralDigits_ne_nil b n

theorem lt_of_mem_numeralDigits {d : ℕ} (hb : 1 < b) (h : d ∈ numeralDigits b n) : d < b := by
  rw [numeralDigits] at h
  split_ifs at h with hn
  · rw [List.mem_singleton.mp h]
    exact Nat.zero_lt_of_lt hb
  · exact Nat.digits_lt_base hb (List.mem_reverse.mp h)

/-- A number below a power of the base has no more digits than that. -/
theorem numeral_length (digit : ℕ → α) (hb : 1 < b) {k : ℕ} (hk : 0 < k) (hn : n < b ^ k) :
    (numeral digit b n).length ≤ k := by
  rw [numeral, List.length_map, numeralDigits]
  split_ifs
  · exact hk
  · rw [List.length_reverse]
    exact (Nat.digits_length_le_iff hb n).mpr hn

theorem ofDigits_numeralDigits (b n : ℕ) : Nat.ofDigits b (numeralDigits b n).reverse = n := by
  rw [numeralDigits]
  split_ifs with h
  · simp [h]
  · rw [List.reverse_reverse, Nat.ofDigits_digits]

theorem numeralDigits_inj (h : numeralDigits b m = numeralDigits b n) : m = n := by
  rw [← ofDigits_numeralDigits b m, h, ofDigits_numeralDigits]

/-- Lists of digits that are written the same are the same, and each digit is. -/
theorem eq_of_map_eq {d₁ d₂ : ℕ → α} (hd : ∀ x < b, ∀ y < b, d₁ x = d₂ y → x = y) :
    ∀ {l₁ l₂ : List ℕ}, (∀ x ∈ l₁, x < b) → (∀ y ∈ l₂, y < b) → l₁.map d₁ = l₂.map d₂ →
      l₁ = l₂ ∧ ∀ x ∈ l₂, d₁ x = d₂ x
  | [], [], _, _, _ => ⟨rfl, fun _ hx => absurd hx List.not_mem_nil⟩
  | [], _ :: _, _, _, h => absurd h.symm (List.cons_ne_nil _ _)
  | _ :: _, [], _, _, h => absurd h (List.cons_ne_nil _ _)
  | x :: l₁, y :: l₂, h₁, h₂, h => by
    obtain ⟨hhead, htail⟩ := List.cons.inj h
    have hxy : x = y := hd x (h₁ x List.mem_cons_self) y (h₂ y List.mem_cons_self) hhead
    obtain ⟨hl, hsame⟩ := eq_of_map_eq hd (fun z hz => h₁ z (List.mem_cons_of_mem x hz))
      (fun z hz => h₂ z (List.mem_cons_of_mem y hz)) htail
    subst hxy hl
    exact ⟨rfl, List.forall_mem_cons.mpr ⟨hhead, hsame⟩⟩

/-- **A numeral in two alphabets** is that of one number. -/
theorem numeral_eq_iff {d₁ d₂ : ℕ → α} (hb : 1 < b)
    (hd : ∀ x < b, ∀ y < b, d₁ x = d₂ y → x = y) :
    numeral d₁ b m = numeral d₂ b n ↔ m = n ∧ ∀ x ∈ numeralDigits b n, d₁ x = d₂ x := by
  constructor
  · intro h
    obtain ⟨hdigits, hsame⟩ := eq_of_map_eq hd (fun _ hx => lt_of_mem_numeralDigits hb hx)
      (fun _ hy => lt_of_mem_numeralDigits hb hy) h
    exact ⟨numeralDigits_inj hdigits, hsame⟩
  · rintro ⟨rfl, hsame⟩
    exact List.map_congr_left hsame

end PrismaticOS.Library
