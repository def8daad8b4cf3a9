import Mathlib.Order.CompletePartialOrder
import PrismaticOS.Library.Memory
import PrismaticOS.Library.Words
import PrismaticOS.Library.Runs

/-!
# The heap of the kernel that is built

`kernel/simple_mm.c`, which the kernel's Makefile compiles in place of `mm.c`: 16 MB from
`0x1000000`, of which `kmalloc` gives out one piece after the other, and `kfree` takes
nothing back.

## The model

The kernel is built with `-m32`: `size_t` and pointers have 32 bits. A run keeps the
pointers that were returned, each with the number of bytes that was asked for (for `kcalloc`
the exact product); `krealloc` is called with one of them or with `NULL`.

## What is proved

* `heapSize_le` — `heap_size` never exceeds `max_heap_size`.
* `simple_heap_separated` — the pieces are inside the heap, large enough and apart from each
  other exactly if no call that succeeds wraps, in the sum with `heap_size` or in the product
  of `kcalloc`.
* `kmalloc_wraps`, `kcalloc_wraps` — two calls that do.
-/

namespace PrismaticOS.Kernel.SimpleMm

open PrismaticOS.Library

/-! ### The allocator -/

/-- `kernel_heap`. -/
def kernelHeap : ℕ := 0x1000000

/-- `max_heap_size`. -/
def maxHeapSize : ℕ := 0x1000000

/-- The static variables, and memory. -/
structure SimpleHeap where
  /-- `heap_size`. -/
  heapSize : ℕ
  /-- The kernel's memory. -/
  mem : Mem

/-- `memset`. -/
def memset (m : Mem) (s : ℕ) (c : UInt8) : ℕ → Mem
  | 0 => m
  | n + 1 => Function.update (memset m s c n) (wrap 32 (s + n)) c

/-- `memcpy`, from the first byte to the last. -/
def memcpy (m : Mem) (dest src : ℕ) : ℕ → Mem
  | 0 => m
  | n + 1 =>
    Function.update (memcpy m dest src n) (wrap 32 (dest + n))
      (memcpy m dest src n (wrap 32 (src + n)))

/-- `mm_init`. -/
def mmInit (m : Mem) : SimpleHeap := ⟨0, m⟩

/-- `mm_get_available_memory`. -/
def mmGetAvailableMemory (h : SimpleHeap) : ℕ := wsub 32 maxHeapSize h.heapSize

/-- `kmalloc`: the heap and the pointer, 0 for `NULL`. -/
def kmalloc (h : SimpleHeap) (size : ℕ) : SimpleHeap × ℕ :=
  if maxHeapSize < wrap 32 (h.heapSize + size) then (h, 0)
  else ({ h with heapSize := wrap 32 (h.heapSize + size) }, wrap 32 (kernelHeap + h.heapSize))

/-- `kcalloc`. -/
def kcalloc (h : SimpleHeap) (nmemb size : ℕ) : SimpleHeap × ℕ :=
  let total := wrap 32 (nmemb * size)
  match kmalloc h total with
  | (h, ptr) => if ptr ≠ 0 then ({ h with mem := memset h.mem ptr 0 total }, ptr) else (h, ptr)

/-- `krealloc`. -/
def krealloc (h : SimpleHeap) (ptr size : ℕ) : SimpleHeap × ℕ :=
  match kmalloc h size with
  | (h, newPtr) =>
    if newPtr ≠ 0 ∧ ptr ≠ 0 then ({ h with mem := memcpy h.mem newPtr ptr size }, newPtr)
    else (h, newPtr)

/-! ### Runs -/

/-- A call. -/
inductive AllocCall where
  /-- `kmalloc(size)`. -/
  | kmalloc (size : ℕ)
  /-- `kcalloc(nmemb, size)`. -/
  | kcalloc (nmemb size : ℕ)
  /-- `krealloc(ptr, size)`. -/
  | krealloc (ptr size : ℕ)

/-- The heap and what was returned. -/
structure Pieces where
  /-- The heap. -/
  heap : SimpleHeap
  /-- The pointers that are not `NULL` and the bytes that were asked for, the last first. -/
  results : List (ℕ × ℕ)

/-- How many bytes a call asks for, exactly. -/
def AllocCall.requested : AllocCall → ℕ
  | .kmalloc size => size
  | .kcalloc nmemb size => nmemb * size
  | .krealloc _ size => size

/-- The argument that `kmalloc` gets. -/
def AllocCall.passed : AllocCall → ℕ
  | .kmalloc size => size
  | .kcalloc nmemb size => wrap 32 (nmemb * size)
  | .krealloc _ size => size

/-- The function that is called. -/
def allocCall (h : SimpleHeap) : AllocCall → SimpleHeap × ℕ
  | .kmalloc size => kmalloc h size
  | .kcalloc nmemb size => kcalloc h nmemb size
  | .krealloc ptr size => krealloc h ptr size

/-- The pointer that a call is given is `NULL` or was returned. -/
def AllocCall.live (results : List (ℕ × ℕ)) : AllocCall → Bool
  | .krealloc ptr _ => ptr == 0 || results.any (·.1 == ptr)
  | _ => true

/-- A call, and what it returned. -/
def allocStep (s : Pieces) (c : AllocCall) : Option Pieces :=
  if c.live s.results then
    match allocCall s.heap c with
    | (h, ptr) => some ⟨h, if ptr ≠ 0 then (ptr, c.requested) :: s.results else s.results⟩
  else none

/-- The bytes of a piece. -/
def piece (r : ℕ × ℕ) : Set ℕ := Set.Ico r.1 (r.1 + r.2)

/-- The pieces are in the heap and apart. -/
structure Separated (s : Pieces) : Prop where
  /-- `heap_size`. -/
  size : s.heap.heapSize ≤ maxHeapSize
  /-- Every piece is in the heap. -/
  inside : ∀ r ∈ s.results, kernelHeap ≤ r.1 ∧ r.1 + r.2 ≤ kernelHeap + maxHeapSize
  /-- No two overlap. -/
  apart : s.results.Pairwise fun r r' => Disjoint (piece r) (piece r')

/-- When a call does not break this: `kmalloc` refuses it, or nothing wraps. -/
def AllocOk (s : Pieces) (c : AllocCall) : Prop :=
  maxHeapSize < wrap 32 (s.heap.heapSize + c.passed) ∨ s.heap.heapSize + c.requested < 2 ^ 32

instance (s : Pieces) (c : AllocCall) : Decidable (AllocOk s c) :=
  inferInstanceAs (Decidable (_ ∨ _))

variable {h : SimpleHeap} {s s' : Pieces} {c : AllocCall}

/-! ### One call -/

theorem kmalloc_cases (hsize : h.heapSize ≤ maxHeapSize) (size : ℕ) :
    (maxHeapSize < wrap 32 (h.heapSize + size) ∧ kmalloc h size = (h, 0)) ∨
      (wrap 32 (h.heapSize + size) ≤ maxHeapSize ∧ kmalloc h size =
        ({ h with heapSize := wrap 32 (h.heapSize + size) }, kernelHeap + h.heapSize)) := by
  unfold kmalloc
  by_cases hfull : maxHeapSize < wrap 32 (h.heapSize + size)
  · exact .inl ⟨hfull, if_pos hfull⟩
  · have hptr : wrap 32 (kernelHeap + h.heapSize) = kernelHeap + h.heapSize := by
      apply wrap_of_lt
      simp only [kernelHeap, maxHeapSize] at *
      omega
    exact .inr ⟨Nat.le_of_not_lt hfull, by rw [if_neg hfull, hptr]⟩

/-- **What a call does**: nothing, or it takes the next piece. -/
theorem allocCall_cases (hsize : h.heapSize ≤ maxHeapSize) (c : AllocCall) :
    (maxHeapSize < wrap 32 (h.heapSize + c.passed) ∧ allocCall h c = (h, 0)) ∨
      (wrap 32 (h.heapSize + c.passed) ≤ maxHeapSize ∧
        (allocCall h c).1.heapSize = wrap 32 (h.heapSize + c.passed) ∧
          (allocCall h c).2 = kernelHeap + h.heapSize) := by
  have hne : kernelHeap + h.heapSize ≠ 0 := by
    simp only [kernelHeap]
    omega
  rcases kmalloc_cases hsize c.passed with ⟨hfull, heq⟩ | ⟨hfits, heq⟩
  · refine .inl ⟨hfull, ?_⟩
    cases c <;> simp_all [allocCall, kcalloc, krealloc, AllocCall.passed]
  · refine .inr ⟨hfits, ?_⟩
    cases c with
    | kmalloc size => simp_all [allocCall, AllocCall.passed]
    | kcalloc nmemb size => simp_all [allocCall, kcalloc, AllocCall.passed]
    | krealloc ptr size =>
      simp only [AllocCall.passed] at heq
      simp only [allocCall, krealloc, heq, AllocCall.passed]
      split <;> exact ⟨rfl, rfl⟩

/-- What a call leaves. -/
theorem allocStep_cases (hsize : s.heap.heapSize ≤ maxHeapSize) (hs : allocStep s c = some s') :
    (maxHeapSize < wrap 32 (s.heap.heapSize + c.passed) ∧ s' = s) ∨
      (wrap 32 (s.heap.heapSize + c.passed) ≤ maxHeapSize ∧
        s'.heap.heapSize = wrap 32 (s.heap.heapSize + c.passed) ∧
          s'.results = (kernelHeap + s.heap.heapSize, c.requested) :: s.results) := by
  unfold allocStep at hs
  split at hs
  swap
  · cases hs
  rcases allocCall_cases hsize c with ⟨hfull, heq⟩ | ⟨hfits, hheap, hptr⟩
  · rw [heq] at hs
    exact .inl ⟨hfull, (Option.some.inj hs).symm⟩
  · obtain ⟨t, ptr, hcall⟩ : ∃ t ptr, allocCall s.heap c = (t, ptr) := ⟨_, _, rfl⟩
    rw [hcall] at hs hheap hptr
    obtain rfl := Option.some.inj hs
    have hne : ptr ≠ 0 := by
      rw [show ptr = _ from hptr, kernelHeap]
      omega
    refine .inr ⟨hfits, hheap, ?_⟩
    rw [if_pos hne, show ptr = _ from hptr]

/-! ### The invariant -/

/-- The pieces lie one after the other. -/
structure Stacked (s : Pieces) : Prop where
  /-- `heap_size`. -/
  size : s.heap.heapSize ≤ maxHeapSize
  /-- Every piece is below the next one to come. -/
  below : ∀ r ∈ s.results, kernelHeap ≤ r.1 ∧ r.1 + r.2 ≤ kernelHeap + s.heap.heapSize
  /-- Every piece is below those that came after it. -/
  sorted : s.results.Pairwise fun r r' => r'.1 + r'.2 ≤ r.1

theorem Stacked.separated (h : Stacked s) : Separated s := by
  have hsize := h.size
  refine ⟨hsize, fun r hr => ?_, h.sorted.imp fun {r r'} hle => ?_⟩
  · obtain ⟨hlow, hhigh⟩ := h.below r hr
    omega
  · rw [piece, piece, Set.disjoint_left]
    intro x hx hx'
    rw [Set.mem_Ico] at hx hx'
    omega

/-- A request that fits is passed on as it is. -/
theorem passed_eq_requested (h : s.heap.heapSize + c.requested < 2 ^ 32) :
    c.passed = c.requested := by
  cases c with
  | kmalloc size => rfl
  | kcalloc nmemb size =>
    apply wrap_of_lt
    simp only [AllocCall.requested] at h
    omega
  | krealloc ptr size => rfl

theorem allocStep_stacked (h : Stacked s) (hok : AllocOk s c) (hs : allocStep s c = some s') :
    Stacked s' := by
  rcases allocStep_cases h.size hs with ⟨-, rfl⟩ | ⟨hfits, hheap, hresults⟩
  · exact h
  have hnowrap : s.heap.heapSize + c.requested < 2 ^ 32 :=
    hok.resolve_left (Nat.not_lt_of_le hfits)
  rw [passed_eq_requested hnowrap, wrap_of_lt hnowrap] at hfits hheap
  refine ⟨hheap ▸ hfits, ?_, ?_⟩
  · rw [hresults, hheap]
    intro r hr
    rcases List.mem_cons.mp hr with rfl | hr
    · constructor <;> simp only <;> omega
    · obtain ⟨hlow, hhigh⟩ := h.below r hr
      omega
  · rw [hresults, List.pairwise_cons]
    exact ⟨fun r hr => (h.below r hr).2, h.sorted⟩

/-- A call that succeeds and wraps returns a piece that does not fit. -/
theorem allocStep_overflows (h : Stacked s) (hno : ¬ AllocOk s c)
    (hs : allocStep s c = some s') : ¬ Separated s' := by
  intro hsep
  obtain ⟨hfits, hwrap⟩ := not_or.mp hno
  rcases allocStep_cases h.size hs with ⟨hfull, -⟩ | ⟨-, -, hresults⟩
  · exact hfits hfull
  · have hmem : (kernelHeap + s.heap.heapSize, c.requested) ∈ s'.results := by
      rw [hresults]
      exact List.mem_cons_self
    obtain ⟨-, hend⟩ := hsep.inside _ hmem
    simp only [kernelHeap, maxHeapSize] at hend
    omega

/-- **`heap_size` never exceeds `max_heap_size`**, whatever is asked for. -/
theorem heapSize_le (m : Mem) (calls : List AllocCall) :
    Always allocStep (fun s => s.heap.heapSize ≤ maxHeapSize) ⟨mmInit m, []⟩ calls := by
  refine always_of_step (fun s c s' (hs : s.heap.heapSize ≤ maxHeapSize) hstep => ?_)
    (Nat.zero_le _)
  rcases allocStep_cases hs hstep with ⟨-, rfl⟩ | ⟨hfits, hheap, -⟩
  · exact hs
  · rw [hheap]
    exact hfits

/-- **When the pieces are in the heap and apart**: from `mm_init`, in every state of a run,
exactly if each call of it is refused or nothing in it wraps. -/
theorem simple_heap_separated (m : Mem) (calls : List AllocCall) :
    Always allocStep Separated ⟨mmInit m, []⟩ calls ↔ Each allocStep AllocOk ⟨mmInit m, []⟩ calls := by
  have hinit : Stacked ⟨mmInit m, []⟩ := ⟨Nat.zero_le _, nofun, .nil⟩
  apply always_iff_each (fun t (ht : Stacked t) => ht.separated) _ _ hinit
  · exact fun _ _ _ => allocStep_stacked
  · exact fun _ _ _ => allocStep_overflows

/-- 16 bytes, and then almost 4 GB: the sum is 8. -/
theorem kmalloc_wraps :
    ¬ Always allocStep Separated ⟨mmInit fun _ => 0, []⟩ [.kmalloc 16, .kmalloc 0xFFFFFFF8] := by
  intro h
  have hrun : (run allocStep ⟨mmInit fun _ => 0, []⟩
      [.kmalloc 16, .kmalloc 0xFFFFFFF8]).map Pieces.results =
        some [(0x1000010, 0xFFFFFFF8), (0x1000000, 16)] := by decide +kernel
  obtain ⟨s, hs, hresults⟩ := Option.map_eq_some_iff.mp hrun
  obtain ⟨-, hend⟩ := (h.of_run hs).inside (0x1000010, 0xFFFFFFF8) (by simp [hresults])
  exact absurd hend (by decide)

/-- 65536 times 65536 bytes: the product is 0, and 0 bytes are returned for them. -/
theorem kcalloc_wraps :
    ¬ Always allocStep Separated ⟨mmInit fun _ => 0, []⟩ [.kcalloc 0x10000 0x10000] := by
  intro h
  have hrun : (run allocStep ⟨mmInit fun _ => 0, []⟩ [.kcalloc 0x10000 0x10000]).map
      Pieces.results = some [(0x1000000, 0x100000000)] := by decide +kernel
  obtain ⟨s, hs, hresults⟩ := Option.map_eq_some_iff.mp hrun
  obtain ⟨-, hend⟩ := (h.of_run hs).inside (0x1000000, 0x100000000) (by simp [hresults])
  exact absurd hend (by decide)

end PrismaticOS.Kernel.SimpleMm
