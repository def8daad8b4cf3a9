import Mathlib.Data.Int.Notation
import Mathlib.Data.Option.Basic
import Mathlib.Order.Basic
import Mathlib.Logic.Function.Basic

/-!
# Loops

A loop `for (i = 0; i < n; i++)` whose body may fail, two of them inside one another, which
go over a table row by row, and a loop `while (true)` that a turn of it leaves.

## What is proved

* `forRange_rule` — an invariant that says how far the loop is.
* `forTable_rule` — the same for a table, where the invariant counts the entries.
* `whileTurns_rule` — an invariant that bounds the turns to come, so that the loop ends.
* `update_below` — one more entry of an array that a loop fills from the left.
-/

namespace PrismaticOS.Library

variable {σ : Type*} {s : σ}

/-- `body 0`, `body 1` and so on, `n` times, as long as none fails. -/
def forRange : ℕ → (ℕ → σ → Option σ) → σ → Option σ
  | 0, _, s => some s
  | n + 1, body, s => (forRange n body s).bind (body n)

/-- `body y x` for each entry of a table with `height` rows of `width` entries. -/
def forTable (height width : ℕ) (body : ℕ → ℕ → σ → Option σ) (s : σ) : Option σ :=
  forRange height (fun y => forRange width (body y)) s

/-- **The rule for a loop**: an invariant that the body takes one further. -/
theorem forRange_rule (Inv : ℕ → σ → Prop) (n : ℕ) (body : ℕ → σ → Option σ) (h : Inv 0 s)
    (hbody : ∀ k < n, ∀ s, Inv k s → ∃ s', body k s = some s' ∧ Inv (k + 1) s') :
    ∃ s', forRange n body s = some s' ∧ Inv n s' := by
  induction n with
  | zero => exact ⟨s, rfl, h⟩
  | succ n ih =>
    obtain ⟨s₁, hloop, hinv⟩ := ih fun k hk => hbody k (Nat.lt_succ_of_lt hk)
    obtain ⟨s', hlast, hend⟩ := hbody n (Nat.lt_succ_self n) s₁ hinv
    refine ⟨s', ?_, hend⟩
    rw [forRange, hloop]
    exact hlast

/-- **The rule for a table**: an invariant that counts the entries. -/
theorem forTable_rule (Inv : ℕ → σ → Prop) (height width : ℕ) (body : ℕ → ℕ → σ → Option σ)
    (h : Inv 0 s)
    (hbody : ∀ y < height, ∀ x < width, ∀ s, Inv (y * width + x) s →
      ∃ s', body y x s = some s' ∧ Inv (y * width + x + 1) s') :
    ∃ s', forTable height width body s = some s' ∧ Inv (height * width) s' := by
  apply forRange_rule (fun y => Inv (y * width)) height fun y => forRange width (body y)
  · rwa [Nat.zero_mul]
  · intro y hy s hs
    rw [Nat.succ_mul]
    exact forRange_rule (fun x => Inv (y * width + x)) width (body y) hs fun x hx =>
      hbody y hy x hx

/-- `for (i = lo; i < hi; i++)`, where the numbers may be negative. -/
def forInt (lo hi : ℤ) (body : ℤ → σ → Option σ) (s : σ) : Option σ :=
  forRange (hi - lo).toNat (fun k => body (lo + k)) s

/-- A loop that has nothing to do. -/
theorem forInt_of_le {lo hi : ℤ} (h : hi ≤ lo) (body : ℤ → σ → Option σ) (s : σ) :
    forInt lo hi body s = some s := by
  rw [forInt, Int.toNat_of_nonpos (by omega)]
  rfl

/-- The last turn of a loop. -/
theorem forInt_succ {lo hi : ℤ} (h : lo ≤ hi) (body : ℤ → σ → Option σ) (s : σ) :
    forInt lo (hi + 1) body s = (forInt lo hi body s).bind (body hi) := by
  have hturns : (hi + 1 - lo).toNat = (hi - lo).toNat + 1 := by omega
  have hlast : lo + ((hi - lo).toNat : ℤ) = hi := by omega
  rw [forInt, hturns, forRange, hlast]
  rfl

/-- A loop with a turn that fails whatever the turns before it did. -/
theorem forInt_none {lo hi k : ℤ} {body : ℤ → σ → Option σ} (hlo : lo ≤ k) (hhi : k < hi)
    (h : ∀ s, body k s = none) (s : σ) : forInt lo hi body s = none := by
  obtain ⟨d, rfl⟩ : ∃ d : ℕ, hi = k + 1 + d := ⟨(hi - (k + 1)).toNat, by omega⟩
  induction d with
  | zero =>
    have hlast : k + 1 + ((0 : ℕ) : ℤ) = k + 1 := by omega
    rw [hlast, forInt_succ hlo]
    cases forInt lo k body s with
    | none => rfl
    | some t => exact h t
  | succ d ih =>
    have hlast : k + 1 + ((d + 1 : ℕ) : ℤ) = k + 1 + d + 1 := by omega
    rw [hlast, forInt_succ (by omega), ih (by omega)]
    rfl

/-- A loop that takes turns until one leaves it, as far as the fuel goes: what it leaves with. -/
def whileTurns (turn : σ → Option σ) : ℕ → σ → Option σ
  | 0, _ => none
  | fuel + 1, s =>
    match turn s with
    | none => some s
    | some s' => whileTurns turn fuel s'

/-- **The rule for a loop that ends**: an invariant that bounds the turns to come, and that each
turn keeps with a smaller bound. -/
theorem whileTurns_rule (Inv : ℕ → σ → Prop) {n : ℕ} (turn : σ → Option σ) (h : Inv n s)
    (hturn : ∀ n s s', Inv n s → turn s = some s' → ∃ n' < n, Inv n' s') :
    ∃ n' s', Inv n' s' ∧ turn s' = none ∧ ∀ fuel, n < fuel → whileTurns turn fuel s = some s' := by
  induction n using Nat.strongRecOn generalizing s with
  | _ n ih =>
    cases hs : turn s with
    | none =>
      refine ⟨n, s, h, hs, fun fuel hfuel => ?_⟩
      obtain ⟨fuel, rfl⟩ := Nat.exists_eq_add_of_lt hfuel
      rw [whileTurns, hs]
    | some s₁ =>
      obtain ⟨m, hm, hnext⟩ := hturn n s s₁ h hs
      obtain ⟨n', s', hinv, hend, hrun⟩ := ih m hm hnext
      refine ⟨n', s', hinv, hend, fun fuel hfuel => ?_⟩
      cases fuel with
      | zero => exact absurd hfuel (Nat.not_lt_zero n)
      | succ fuel =>
        rw [whileTurns, hs]
        exact hrun fuel (Nat.lt_of_lt_of_le hm (Nat.le_of_lt_succ hfuel))

/-- An array that is filled from the left gets its next entry. -/
theorem update_below {α : Type*} (f g : ℕ → α) (i : ℕ) :
    Function.update (fun k => if k < i then f k else g k) i (f i) =
      fun k => if k < i + 1 then f k else g k := by
  funext k
  by_cases hk : k = i
  · subst hk
    rw [Function.update_self, if_pos (Nat.lt_succ_self k)]
  · rw [Function.update_of_ne hk]
    by_cases hlt : k < i
    · rw [if_pos hlt, if_pos (Nat.lt_succ_of_lt hlt)]
    · rw [if_neg hlt, if_neg]
      exact fun hle => hlt (Nat.lt_of_le_of_ne (Nat.le_of_lt_succ hle) hk)

end PrismaticOS.Library
