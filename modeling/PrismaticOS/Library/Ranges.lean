import Mathlib.Data.List.Perm.Basic
import PrismaticOS.Library.Cells

/-!
# Ranges of addresses

Ranges of memory that are apart from each other. A program that hands out memory keeps the
ranges that are in use in a list without overlaps, `List.Pairwise Range.Apart`: the list may be
put in any order (`pairwise_perm`). What is written in one range (`OnlyIn`) is not seen in the
others (`OnlyIn.agreeOn`).
-/

namespace PrismaticOS.Library

/-- A range of addresses. -/
structure Range where
  /-- The first address. -/
  start : ℕ
  /-- How many there are. -/
  size : ℕ

/-- The end of the range. -/
def Range.stop (r : Range) : ℕ := r.start + r.size

/-- The one ends before the other begins. -/
def Range.Apart (r r' : Range) : Prop := r.stop ≤ r'.start ∨ r'.stop ≤ r.start

/-- The one is a part of the other. -/
def Range.Within (r r' : Range) : Prop := r'.start ≤ r.start ∧ r.stop ≤ r'.stop

instance (r r' : Range) : Decidable (r.Apart r') := inferInstanceAs (Decidable (_ ∨ _))

variable {r r' a b w : Range} {rs rs' : List Range} {m m' m'' : Cells}

theorem Range.Apart.symm (h : r.Apart r') : r'.Apart r := Or.symm h

theorem Range.Within.refl (r : Range) : r.Within r := ⟨le_rfl, le_rfl⟩

/-- Parts are apart. -/
theorem Range.Apart.mono (h : r.Apart r') (ha : a.Within r) (hb : b.Within r') : a.Apart b :=
  h.imp (fun h => ha.2.trans (h.trans hb.1)) (fun h => hb.2.trans (h.trans ha.1))

/-- A list without overlaps has none in any order. -/
theorem pairwise_perm (h : rs.Pairwise Range.Apart) (hp : rs.Perm rs') :
    rs'.Pairwise Range.Apart := (hp.pairwise_iff fun h => h.symm).mp h

/-! ### Writes -/

/-- The memories differ in the range only. -/
def OnlyIn (r : Range) (m m' : Cells) : Prop := ∀ x, x < r.start ∨ r.stop ≤ x → m' x = m x

theorem OnlyIn.trans (h : OnlyIn r m m') (h' : OnlyIn r m' m'') : OnlyIn r m m'' :=
  fun x hx => (h' x hx).trans (h x hx)

theorem OnlyIn.mono (h : OnlyIn a m m') (ha : a.Within r) : OnlyIn r m m' :=
  fun x hx => h x (hx.imp (fun hx => hx.trans_le ha.1) (fun hx => ha.2.trans hx))

/-- Ranges that are apart from it keep what they hold. -/
theorem OnlyIn.agreeOn (h : OnlyIn r m m') (hw : w.Apart r) : AgreeOn m m' w.start w.size := by
  intro x h₁ h₂
  apply h x
  rcases hw with hw | hw
  · exact .inl (h₂.trans_le hw)
  · exact .inr (hw.trans h₁)

theorem onlyIn_storeWord (m : Cells) (x v : ℕ) : OnlyIn ⟨x, 8⟩ m (storeWord m x v) :=
  fun _ hx => storeWord_out hx

theorem onlyIn_copyCells (m : Cells) (dst src n : ℕ) :
    OnlyIn ⟨dst, n⟩ m (copyCells m dst src n) := fun _ hx => copyCells_out hx

theorem onlyIn_update (m : Cells) (x v : ℕ) : OnlyIn ⟨x, 1⟩ m (Function.update m x v) := by
  intro y hy
  apply Function.update_of_ne
  rintro rfl
  rcases hy with hy | hy
  · exact absurd hy (lt_irrefl _)
  · exact absurd hy (Nat.not_succ_le_self _)

end PrismaticOS.Library
