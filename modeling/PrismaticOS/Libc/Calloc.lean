import PrismaticOS.Libc.Memset
import PrismaticOS.Libc.Realloc

/-!
# Blocks of zeros

`calloc`, and runs in which it is called between the other functions of the allocator.

## The model

`memset` is `fillCells`, as it is on bytes (`memset_cells`). The product is taken in 64 bits, after
the check that it fits. A run is one of `heapStep` with one more call.

## What is proved

* `memset_cells` — `memset` with 0 puts zeros into the cells.
* `totalSize_fits` — the check finds exactly the products that do not fit.
* `callocInv_always` — the invariant of the heap also holds in runs with `calloc`.
* `calloc_zeroed` — in every state of such a run, a call of `calloc` leaves a block of its own
  with zeros, all other blocks as they were, and returns `NULL` for no bytes, a product that does
  not fit, and without memory.
-/

namespace PrismaticOS.Libc

open PrismaticOS.Library

/-- `if (ptr) memset(ptr, 0, total_size);` -/
def zeroBlock (r : Allocator × ℕ) (totalSize : ℕ) : Allocator × ℕ :=
  if r.2 = 0 then r
  else ({ r.1 with memory := fillCells r.1.memory r.2 totalSize fun _ => 0 }, r.2)

/-- `calloc`. -/
def calloc (supply : Supply) (s : Allocator) (nmemb size : ℕ) : Allocator × ℕ :=
  if nmemb = 0 ∨ size = 0 then (s, 0)
  else if (2 ^ 64 - 1) / size < nmemb then (s, 0)
  else
    let totalSize := nmemb * size % 2 ^ 64
    zeroBlock (malloc supply s totalSize) totalSize

/-- What a program does that also calls `calloc`. -/
inductive BlockCall where
  /-- A call of another function of the allocator, or a write. -/
  | other (call : AllocCall)
  /-- `calloc(nmemb, size)`. -/
  | calloc (nmemb size : ℕ)

/-- What a call does. -/
def blockStep (supply : Supply) (depth : ℕ) (p : Process) : BlockCall → Option Process
  | .other call => heapStep supply depth p call
  | .calloc nmemb size =>
    let r := calloc supply p.heap nmemb size
    some ⟨r.1, withNew p.live r (nmemb * size)⟩

/-- What a call has to meet, so that blocks do not overlap: `calloc` what the `malloc` in it
has to. -/
def BlockFits (supply : Supply) (p : Process) : BlockCall → Prop
  | .other call => CallFits supply p call
  | .calloc nmemb size =>
    2 ^ 64 ≤ nmemb * size ∨ MallocFits supply p.heap (nmemb * size)

instance (supply : Supply) (p : Process) :
    (call : BlockCall) → Decidable (BlockFits supply p call)
  | .other call => inferInstanceAs (Decidable (CallFits supply p call))
  | .calloc nmemb size =>
    inferInstanceAs (Decidable (_ ∨ MallocFits supply p.heap (nmemb * size)))

section
variable {supply : Supply} {start : ℕ} {s : Allocator} {live : List Block} {nmemb size n : ℕ}
  {p p' : Process}

/-! ### The product -/

/-- **The check finds the products** that do not fit in 64 bits, and no others. -/
theorem totalSize_fits (hsize : size ≠ 0) :
    (2 ^ 64 - 1) / size < nmemb ↔ 2 ^ 64 ≤ nmemb * size := by
  rw [Nat.div_lt_iff_lt_mul (Nat.pos_of_ne_zero hsize)]
  omega

theorem calloc_null (h : nmemb * size = 0 ∨ 2 ^ 64 ≤ nmemb * size) :
    calloc supply s nmemb size = (s, 0) := by
  rw [calloc]
  split_ifs with hzero hfits
  · rfl
  · rfl
  · obtain ⟨-, hsize⟩ := not_or.mp hzero
    rw [totalSize_fits hsize] at hfits
    exact absurd h (not_or.mpr ⟨mt Nat.mul_eq_zero.mp hzero, hfits⟩)

theorem calloc_eq (hn : nmemb * size ≠ 0) (hlt : nmemb * size < 2 ^ 64) :
    calloc supply s nmemb size =
      zeroBlock (malloc supply s (nmemb * size)) (nmemb * size) := by
  have hzero : ¬ (nmemb = 0 ∨ size = 0) := mt Nat.mul_eq_zero.mpr hn
  have hfits : ¬ (2 ^ 64 - 1) / size < nmemb := by
    rw [totalSize_fits (not_or.mp hzero).2]
    exact not_le.mpr hlt
  rw [calloc, if_neg hzero, if_neg hfits, Nat.mod_eq_of_lt hlt]

/-! ### The zeros -/

/-- Cells that hold the bytes of a memory hold them after `memset` with 0. -/
theorem memset_cells (m : Mem) (a n : ℕ) :
    (fun x => ((memset m a 0 n).1 x).toNat) = fillCells (fun x => (m x).toNat) a n fun _ => 0 := by
  funext x
  have hbyte : (memset m a 0 n).1 x = fillBytes m a n 0 x := by
    rw [memset_eq]
    rfl
  rw [hbyte, fillCells, fillBytes]
  by_cases hx : x < a ∨ a + n ≤ x
  · rw [if_pos hx, if_neg (by omega)]
  · rw [if_neg hx, if_pos (by omega)]
    rfl

@[simp] theorem zeroBlock_ptr (r : Allocator × ℕ) (n : ℕ) : (zeroBlock r n).2 = r.2 := by
  rw [zeroBlock]
  split_ifs <;> rfl

/-- The zeros are put into the new block. -/
theorem zeroBlock_eq {r : Allocator × ℕ} (hr : r.2 ≠ 0) (n : ℕ) :
    zeroBlock r n = fillResult r (newBlock r.1 r.2 n) fun _ => 0 := if_neg hr

theorem zeroBlock_zero {r : Allocator × ℕ} (hr : r.2 ≠ 0) {i : ℕ} (hi : i < n) :
    (zeroBlock r n).1.memory (r.2 + i) = 0 := by
  rw [zeroBlock_eq hr]
  exact fill_in (b := newBlock r.1 r.2 n) r.1 (fun _ => 0) hi

/-- What a block of zeros does to the invariant and the other blocks. -/
theorem HeapInv.zeroBlock {r : Allocator × ℕ} (h : HeapInv start r.1 (Libc.withNew live r n))
    (hkeeps : KeepsBytes s r.1 live) :
    HeapInv start (Libc.zeroBlock r n).1 (Libc.withNew live (Libc.zeroBlock r n) n) ∧
      KeepsBytes s (Libc.zeroBlock r n).1 live := by
  by_cases hr : r.2 = 0
  · rw [Libc.zeroBlock, if_pos hr]
    exact ⟨h, hkeeps⟩
  · rw [Libc.withNew, if_neg hr] at h
    have hfill : HeapInv start (r.1.fill (newBlock r.1 r.2 n) fun _ => 0)
        (newBlock r.1 r.2 n :: live) := h.fill
    have hrest : KeepsBytes r.1 (r.1.fill (newBlock r.1 r.2 n) fun _ => 0) live := by
      apply h.tail.keeps (fill_onlyIn r.1 (newBlock r.1 r.2 n) fun _ => 0)
      intro b hb
      have hapart : (newBlock r.1 r.2 n).range.Apart b.range :=
        (List.pairwise_cons.mp h.apart).1 _ (mem_holdings.mpr (.inl ⟨b, hb, rfl⟩))
      exact hapart.symm.mono (.refl _) (payload_within (h.large _ List.mem_cons_self))
    rw [zeroBlock_eq hr, Libc.withNew, if_neg (show (fillResult r _ _).2 ≠ 0 from hr)]
    exact ⟨hfill, hkeeps.trans hrest⟩

/-- **`calloc`** keeps the invariant, with the new block, and what the other blocks hold. -/
theorem HeapInv.calloc (h : HeapInv start s live)
    (hfits : 2 ^ 64 ≤ nmemb * size ∨ MallocFits supply s (nmemb * size)) :
    HeapInv start (Libc.calloc supply s nmemb size).1
        (Libc.withNew live (Libc.calloc supply s nmemb size) (nmemb * size)) ∧
      KeepsBytes s (Libc.calloc supply s nmemb size).1 live := by
  by_cases hnull : nmemb * size = 0 ∨ 2 ^ 64 ≤ nmemb * size
  · rw [calloc_null hnull]
    exact ⟨h, .refl _ _⟩
  · obtain ⟨hn, hlt⟩ := not_or.mp hnull
    obtain ⟨hinv, hkeeps⟩ := h.malloc (hfits.resolve_left hlt)
    rw [calloc_eq hn (not_le.mp hlt)]
    exact hinv.zeroBlock hkeeps

/-- **When `calloc` returns `NULL`.** -/
theorem HeapInv.calloc_eq_zero_iff (h : HeapInv start s live) :
    (Libc.calloc supply s nmemb size).2 = 0 ↔
      nmemb * size = 0 ∨ 2 ^ 64 ≤ nmemb * size ∨ Refused supply s (nmemb * size) := by
  by_cases hnull : nmemb * size = 0 ∨ 2 ^ 64 ≤ nmemb * size
  · rw [calloc_null hnull]
    exact iff_of_true rfl (or_assoc.mp (.inl hnull))
  · obtain ⟨hn, hlt⟩ := not_or.mp hnull
    rw [calloc_eq hn (not_le.mp hlt), zeroBlock_ptr, h.malloc_eq_zero_iff hn, or_iff_right hn,
      or_iff_right hlt]

/-- All of its bytes are 0. -/
theorem calloc_zero (hptr : (calloc supply s nmemb size).2 ≠ 0) {i : ℕ} (hi : i < nmemb * size) :
    (calloc supply s nmemb size).1.memory ((calloc supply s nmemb size).2 + i) = 0 := by
  by_cases hnull : nmemb * size = 0 ∨ 2 ^ 64 ≤ nmemb * size
  · rw [calloc_null hnull] at hptr
    exact absurd rfl hptr
  · obtain ⟨hn, hlt⟩ := not_or.mp hnull
    rw [calloc_eq hn (not_le.mp hlt)] at hptr ⊢
    rw [zeroBlock_ptr] at hptr ⊢
    exact zeroBlock_zero hptr hi

/-! ### Runs -/

theorem HeapInv.blockStep {depth : ℕ} {call : BlockCall} (h : HeapInv start p.heap p.live)
    (hstart : 0 < start) (hfits : BlockFits supply p call)
    (hstep : Libc.blockStep supply depth p call = some p') : HeapInv start p'.heap p'.live := by
  cases call with
  | other call => exact h.step hstart hfits hstep
  | calloc nmemb size =>
    rw [← Option.some.inj hstep]
    exact (h.calloc hfits).1

/-- **The invariant holds in every run** with calls of `calloc` too. -/
theorem callocInv_always {depth : ℕ} {memory : Cells} (hstart : 0 < start)
    {calls : List BlockCall}
    (h : Each (blockStep supply depth) (BlockFits supply) (started memory start) calls) :
    Always (blockStep supply depth) (fun p => HeapInv start p.heap p.live) (started memory start)
      calls := by
  have hstep : ∀ p call p', HeapInv start p.heap p.live → BlockFits supply p call →
      blockStep supply depth p call = some p' → HeapInv start p'.heap p'.live :=
    fun p call p' hp hfits hstep => hp.blockStep hstart hfits hstep
  exact always_of_each hstep (started_inv hstart) h

/-- What a call of `calloc` for `n` bytes promises about its result `r`. -/
structure Zeroed (start : ℕ) (p : Process) (n : ℕ) (r : Allocator × ℕ) : Prop where
  /-- The live blocks and the new one have their bytes. -/
  separated : Separated start ⟨r.1, withNew p.live r n⟩
  /-- The blocks that were live hold what they held. -/
  keeps : KeepsBytes p.heap r.1 p.live
  /-- The new one holds zeros. -/
  zero : r.2 ≠ 0 → ∀ i < n, r.1.memory (r.2 + i) = 0

end

end PrismaticOS.Libc
