import Mathlib.Algebra.Ring.Nat
import Mathlib.Order.Nat

/-!
# Memory for addresses without a bound

A memory of cells, with words of eight cells each, little-endian. The last cell of a word takes
all that the first seven leave, so that there is no largest word: a program that keeps addresses
in its memory can be given one address after the other without end. A word below `2 ^ 64` is in
eight bytes, and there the memory is a memory of bytes.

Frames are stated with `AgreeOn`: two memories agree on the `n` cells from an address.
-/

namespace PrismaticOS.Library

/-- A memory: a number at every address. -/
abbrev Cells := ℕ → ℕ

variable {m m' m'' : Cells} {a b n k v x : ℕ}

/-- The memories agree on the `n` cells from `a`. -/
def AgreeOn (m m' : Cells) (a n : ℕ) : Prop := ∀ x, a ≤ x → x < a + n → m' x = m x

theorem AgreeOn.refl (m : Cells) (a n : ℕ) : AgreeOn m m a n := fun _ _ _ => rfl

theorem AgreeOn.symm (h : AgreeOn m m' a n) : AgreeOn m' m a n := fun x h₁ h₂ => (h x h₁ h₂).symm

theorem AgreeOn.trans (h : AgreeOn m m' a n) (h' : AgreeOn m' m'' a n) : AgreeOn m m'' a n :=
  fun x h₁ h₂ => (h' x h₁ h₂).trans (h x h₁ h₂)

/-- They agree on a part. -/
theorem AgreeOn.mono (h : AgreeOn m m' a n) (hb : a ≤ b) (hk : b + k ≤ a + n) :
    AgreeOn m m' b k := fun x h₁ h₂ => h x (hb.trans h₁) (h₂.trans_le hk)

/-! ### Words -/

/-- The word at `a`. -/
def loadWord (m : Cells) (a : ℕ) : ℕ :=
  m a + 256 * (m (a + 1) + 256 * (m (a + 2) + 256 * (m (a + 3) + 256 * (m (a + 4) +
    256 * (m (a + 5) + 256 * (m (a + 6) + 256 * m (a + 7)))))))

/-- The memory with the word `v` at `a`. -/
def storeWord (m : Cells) (a v : ℕ) : Cells := fun x =>
  if x < a ∨ a + 8 ≤ x then m x
  else if x < a + 7 then v / 256 ^ (x - a) % 256 else v / 256 ^ 7

/-- A store changes its own cells only. -/
theorem storeWord_out (h : x < a ∨ a + 8 ≤ x) : storeWord m a v x = m x := if_pos h

theorem storeWord_agreeOn (h : b + n ≤ a ∨ a + 8 ≤ b) : AgreeOn m (storeWord m a v) b n :=
  fun _ _ _ => storeWord_out (by omega)

/-- A load depends on its own cells only. -/
theorem loadWord_congr (h : AgreeOn m m' a 8) : loadWord m' a = loadWord m a := by
  have hcell : ∀ i < 8, m' (a + i) = m (a + i) := fun i hi => h _ (by omega) (by omega)
  have h₀ : m' a = m a := hcell 0 (by omega)
  simp only [loadWord, h₀, hcell 1 (by omega), hcell 2 (by omega), hcell 3 (by omega),
    hcell 4 (by omega), hcell 5 (by omega), hcell 6 (by omega), hcell 7 (by omega)]

/-- What is stored is read back. -/
@[simp] theorem loadWord_storeWord (m : Cells) (a v : ℕ) : loadWord (storeWord m a v) a = v := by
  have hbyte : ∀ i < 7, storeWord m a v (a + i) = v / 256 ^ i % 256 := by
    intro i hi
    rw [storeWord, if_neg (by omega), if_pos (by omega), Nat.add_sub_cancel_left]
  have hlast : storeWord m a v (a + 7) = v / 256 ^ 7 := by
    rw [storeWord, if_neg (by omega), if_neg (by omega)]
  have h₀ : storeWord m a v a = v / 256 ^ 0 % 256 := hbyte 0 (by omega)
  rw [loadWord, h₀, hbyte 1 (by omega), hbyte 2 (by omega), hbyte 3 (by omega),
    hbyte 4 (by omega), hbyte 5 (by omega), hbyte 6 (by omega), hlast]
  omega

/-- A store is not seen by a load of other cells. -/
theorem loadWord_storeWord_out (h : b + 8 ≤ a ∨ a + 8 ≤ b) :
    loadWord (storeWord m a v) b = loadWord m b := loadWord_congr (storeWord_agreeOn h)

/-! ### Copies -/

/-- The `n` cells from `src` copied to `dst`. -/
def copyCells (m : Cells) (dst src n : ℕ) : Cells := fun x =>
  if x < dst ∨ dst + n ≤ x then m x else m (src + (x - dst))

/-- A copy changes the cells of its destination only. -/
theorem copyCells_out {dst src : ℕ} (h : x < dst ∨ dst + n ≤ x) : copyCells m dst src n x = m x :=
  if_pos h

theorem copyCells_agreeOn {dst src : ℕ} (h : b + k ≤ dst ∨ dst + n ≤ b) :
    AgreeOn m (copyCells m dst src n) b k := fun _ _ _ => copyCells_out (by omega)

/-- There they are those of the source. -/
theorem copyCells_in {dst src i : ℕ} (h : i < n) :
    copyCells m dst src n (dst + i) = m (src + i) := by
  rw [copyCells, if_neg (by omega), Nat.add_sub_cancel_left]

/-! ### Other contents -/

/-- The `n` cells from `a` on hold `f`. -/
def fillCells (m : Cells) (a n : ℕ) (f : ℕ → ℕ) : Cells := fun x =>
  if x < a ∨ a + n ≤ x then m x else f (x - a)

/-- The other cells are as they were. -/
theorem fillCells_out {f : ℕ → ℕ} (h : x < a ∨ a + n ≤ x) : fillCells m a n f x = m x := if_pos h

theorem fillCells_in {f : ℕ → ℕ} {i : ℕ} (h : i < n) : fillCells m a n f (a + i) = f i := by
  rw [fillCells, if_neg (by omega), Nat.add_sub_cancel_left]

/-- A word beside them is written before or after. -/
theorem storeWord_fillCells {f : ℕ → ℕ} (h : b + 8 ≤ a ∨ a + n ≤ b) :
    storeWord (fillCells m a n f) b v = fillCells (storeWord m b v) a n f := by
  funext x
  by_cases hx : x < b ∨ b + 8 ≤ x
  · rw [storeWord_out hx, fillCells, fillCells, storeWord_out hx]
  · rw [fillCells_out (by omega), storeWord, storeWord, if_neg hx, if_neg hx]

end PrismaticOS.Library
