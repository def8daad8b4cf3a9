import PrismaticOS.Kernel.PageAccounting

/-!
# The allocator of physical pages

`pm_init_region`, `pm_alloc_page`, `pm_free_page` and `mm_get_available_memory` of
`kernel/mm.c`, in runs of calls.

## The model

A run begins with `pm_init_region` on a `memory_used_pages` of zero. A `PmHistory` is the state
and a record of the pages that were returned, and of those not freed since; the 0 of a call that
finds no page is not recorded.

## What is proved

* `pmStep_inv` — what one call keeps.
* `pages_ok` — the bitmap, the count and what `pm_alloc_page` returns agree in every run, if the
  pages of the region are within 64-bit addresses.
* `wrapped_region` — a region that is not: there page 0 is taken for no page.
-/

namespace PrismaticOS.Kernel

open PrismaticOS.Library

/-! ### Runs -/

/-- `mm_get_available_memory`. -/
def Mm.mmGetAvailableMemory (s : Mm) : ℕ :=
  wrap 64 (wsub 64 s.memoryTotalPages s.memoryUsedPages * pageSize)

/-- A call of the allocator. -/
inductive PmCall where
  /-- `pm_alloc_page`. -/
  | allocPage
  /-- `pm_free_page`. -/
  | freePage (physAddr : UInt64)

/-- The state, and what has become of the pages. -/
structure PmHistory where
  /-- The state. -/
  mm : Mm
  /-- The pages that `pm_alloc_page` has returned. -/
  returned : List ℕ
  /-- Those that were not freed since. -/
  live : List ℕ

/-- A call. -/
def pmStep (s : PmHistory) : PmCall → Option PmHistory
  | .allocPage =>
    match bitmapFindFreePage s.mm with
    | none => some { s with mm := (pmAllocPage s.mm).1 }
    | some _ => some
      { mm := (pmAllocPage s.mm).1
        returned := (pmAllocPage s.mm).2 :: s.returned
        live := (pmAllocPage s.mm).2 :: s.live }
  | .freePage physAddr => some
    { s with
      mm := pmFreePage s.mm physAddr.toNat
      live := s.live.filter (· ≠ physAddr.toNat) }

/-- After `pm_init_region`. -/
def pmStart (s : Mm) (start size kernelHeapEnd : UInt64) : PmHistory :=
  ⟨pmInitRegion { s with memoryUsedPages := 0 } start.toNat size.toNat kernelHeapEnd.toNat, [], []⟩

/-- What may be freed: an address outside the region, or a page that was returned. -/
def PmAllowed (start size : UInt64) (s : PmHistory) : PmCall → Prop
  | .allocPage => True
  | .freePage physAddr =>
    (physAddr.toNat < start.toNat ∨ start.toNat + size.toNat ≤ physAddr.toNat) ∨
      physAddr.toNat ∈ s.returned

instance (start size : UInt64) (s : PmHistory) : ∀ c, Decidable (PmAllowed start size s c)
  | .allocPage => isTrue trivial
  | .freePage _ => inferInstanceAs (Decidable ((_ ∨ _) ∨ _))

/-- The bits that are clear. -/
def clearPages (s : Mm) : ℕ :=
  ((Finset.range s.memoryTotalPages).filter fun i => s.memoryBitmap i = false).card

/-- What holds of a state, and of a `pm_alloc_page` in it. -/
structure PagesOk (start kernelHeapEnd : UInt64) (s : PmHistory) : Prop where
  /-- The count is the number of bits that are set. -/
  used : s.mm.memoryUsedPages = markedPages s.mm
  /-- The available memory is that of the others. -/
  available : s.mm.mmGetAvailableMemory = pageSize * clearPages s.mm
  /-- A page that would be returned is not in use, nor one of the kernel. -/
  fresh : ∀ i, bitmapFindFreePage s.mm = some i →
    (pmAllocPage s.mm).2 ∉ s.live ∧ pageAlign kernelHeapEnd.toNat ≤ (pmAllocPage s.mm).2
  /-- 0 would be returned if every bit is set, and only then. -/
  full : 0 < start → ((pmAllocPage s.mm).2 = 0 ↔
    ∀ i < s.mm.memoryTotalPages, s.mm.memoryBitmap i = true)

/-! ### What a call keeps -/

/-- The pages that `pm_init_region` marks. -/
def kernelPages (kernelHeapEnd : UInt64) : ℕ := pageAlign kernelHeapEnd.toNat / pageSize

/-- The invariant of the runs. -/
structure PmInv (start size kernelHeapEnd : UInt64) (s : PmHistory) : Prop where
  /-- The pages of the region. -/
  total : s.mm.memoryTotalPages = size.toNat / pageSize
  /-- Where they begin. -/
  base : s.mm.memoryBase = start.toNat
  /-- The count. -/
  used : s.mm.memoryUsedPages = markedPages s.mm
  /-- The pages of the kernel stay marked. -/
  kernel : ∀ i < s.mm.memoryTotalPages, i < kernelPages kernelHeapEnd → s.mm.memoryBitmap i = true
  /-- What was returned are pages of the region that are not the kernel's. -/
  returned : ∀ a ∈ s.returned, ∃ i, kernelPages kernelHeapEnd ≤ i ∧
    i < s.mm.memoryTotalPages ∧ a = start.toNat + i * pageSize
  /-- What is in use is marked. -/
  live : ∀ a ∈ s.live, ∃ i < s.mm.memoryTotalPages,
    a = start.toNat + i * pageSize ∧ s.mm.memoryBitmap i = true

variable {start size kernelHeapEnd : UInt64} {s s' : PmHistory}

theorem bitmapFindFreePage_eq_none_iff (s : Mm) :
    bitmapFindFreePage s = none ↔ ∀ i < s.memoryTotalPages, s.memoryBitmap i = true := by
  simp [bitmapFindFreePage]

/-- Clearing a bit that was set. -/
theorem card_cleared {n i : ℕ} {bitmap : ℕ → Bool} (hi : i < n) (hb : bitmap i = true) :
    ((Finset.range n).filter fun j => Function.update bitmap i false j = true).card + 1 =
      ((Finset.range n).filter fun j => bitmap j = true).card := by
  have hback : Function.update (Function.update bitmap i false) i true = bitmap := by
    rw [Function.update_idem, ← hb, Function.update_eq_self]
  have hclear : Function.update bitmap i false i = false := Function.update_self ..
  have hmarked := card_marked hi hclear
  rw [hback] at hmarked
  exact hmarked.symm

theorem clearPages_add_markedPages (s : Mm) :
    clearPages s + markedPages s = s.memoryTotalPages := by
  have h := Finset.card_filter_add_card_filter_not (s := Finset.range s.memoryTotalPages)
    fun i => s.memoryBitmap i = true
  simp only [Bool.not_eq_true, Finset.card_range] at h
  rw [clearPages, markedPages, Nat.add_comm]
  exact h

/-- An address of the region is not too large. -/
theorem address_lt (h : PmInv start size kernelHeapEnd s)
    (hwrap : start.toNat + size.toNat / pageSize * pageSize ≤ 2 ^ 64) {i : ℕ}
    (hi : i < s.mm.memoryTotalPages) : start.toNat + i * pageSize < 2 ^ 64 := by
  rw [h.total] at hi
  simp only [pageSize] at *
  omega

/-- What `pm_alloc_page` returns when it finds a page. -/
theorem pmAllocPage_some (h : PmInv start size kernelHeapEnd s)
    (hwrap : start.toNat + size.toNat / pageSize * pageSize ≤ 2 ^ 64) {i : ℕ}
    (hfound : bitmapFindFreePage s.mm = some i) :
    pmAllocPage s.mm =
      ({ s.mm with
          memoryBitmap := Function.update s.mm.memoryBitmap i true
          memoryUsedPages := markedPages s.mm + 1 }, start.toNat + i * pageSize) := by
  have hi := (bitmapFindFreePage_spec hfound).1
  have hmarked := markedPages_le s.mm
  have hsize := size.toNat_lt
  have htotal := h.total
  have hused : wrap 64 (markedPages s.mm + 1) = markedPages s.mm + 1 :=
    wrap_of_lt (by simp only [pageSize] at htotal; omega)
  rw [pmAllocPage, hfound]
  dsimp only
  rw [h.base, h.used, hused, wrap_of_lt (address_lt h hwrap hi)]

/-- A page that is found is not one of the kernel. -/
theorem kernelPages_le (h : PmInv start size kernelHeapEnd s) {i : ℕ}
    (hfound : bitmapFindFreePage s.mm = some i) : kernelPages kernelHeapEnd ≤ i := by
  obtain ⟨hi, hclear⟩ := bitmapFindFreePage_spec hfound
  by_contra hlt
  rw [h.kernel i hi (Nat.not_le.mp hlt)] at hclear
  cases hclear

/-- **The invariant says what it should.** -/
theorem PmInv.ok (h : PmInv start size kernelHeapEnd s)
    (hwrap : start.toNat + size.toNat / pageSize * pageSize ≤ 2 ^ 64) :
    PagesOk start kernelHeapEnd s := by
  have hsum := clearPages_add_markedPages s.mm
  have htotal := h.total
  have hsize := size.toNat_lt
  refine ⟨h.used, ?_, fun i hfound => ?_, fun hstart => ?_⟩
  · have hsub : wsub 64 s.mm.memoryTotalPages (markedPages s.mm) = clearPages s.mm := by
      rw [wsub_of_le (by simp only [pageSize] at htotal; omega) (by omega)]
      omega
    rw [Mm.mmGetAvailableMemory, h.used, hsub, Nat.mul_comm, wrap_of_lt]
    simp only [pageSize] at *
    omega
  · obtain ⟨hi, hclear⟩ := bitmapFindFreePage_spec hfound
    rw [pmAllocPage_some h hwrap hfound]
    refine ⟨fun hlive => ?_, ?_⟩
    · obtain ⟨j, -, haddr, hset⟩ := h.live _ hlive
      have hij : i = j := by
        simp only [pageSize] at haddr
        omega
      rw [← hij, hclear] at hset
      cases hset
    · have hle := kernelPages_le h hfound
      simp only [kernelPages, pageAlign, pageSize] at hle ⊢
      omega
  · rw [← bitmapFindFreePage_eq_none_iff]
    cases hfound : bitmapFindFreePage s.mm with
    | none =>
      rw [pmAllocPage, hfound]
      exact iff_of_true rfl rfl
    | some i =>
      rw [pmAllocPage_some h hwrap hfound]
      have hpos : 0 < start.toNat := UInt64.lt_iff_toNat_lt.mp hstart
      refine iff_of_false (fun hzero => ?_) fun hnone => ?_
      · dsimp only at hzero
        omega
      · cases hnone

/-- A bit that is set stays set. -/
theorem update_true {bitmap : ℕ → Bool} {i j : ℕ} (h : bitmap j = true) :
    Function.update bitmap i true j = true := by
  by_cases hij : j = i
  · rw [hij, Function.update_self]
  · rwa [Function.update_of_ne hij]

/-- A page is allocated. -/
theorem allocPage_inv (h : PmInv start size kernelHeapEnd s)
    (hwrap : start.toNat + size.toNat / pageSize * pageSize ≤ 2 ^ 64)
    (hs : pmStep s .allocPage = some s') : PmInv start size kernelHeapEnd s' := by
  rw [pmStep] at hs
  cases hfound : bitmapFindFreePage s.mm with
  | none =>
    rw [hfound, pmAllocPage, hfound] at hs
    cases hs
    exact h
  | some i =>
    obtain ⟨hi, hclear⟩ := bitmapFindFreePage_spec hfound
    rw [hfound, pmAllocPage_some h hwrap hfound] at hs
    cases hs
    refine ⟨h.total, h.base, (card_marked hi hclear).symm, fun j hj hlt => ?_,
      List.forall_mem_cons.mpr ⟨⟨i, kernelPages_le h hfound, hi, rfl⟩, h.returned⟩,
      List.forall_mem_cons.mpr ⟨⟨i, hi, rfl, Function.update_self ..⟩, fun a ha => ?_⟩⟩
    · exact update_true (h.kernel j hj hlt)
    · obtain ⟨j, hj, haddr, hset⟩ := h.live a ha
      exact ⟨j, hj, haddr, update_true hset⟩

/-- An address that may be freed and is in the bitmap is that of a page that was returned. -/
theorem freed_index (h : PmInv start size kernelHeapEnd s)
    (hwrap : start.toNat + size.toNat / pageSize * pageSize ≤ 2 ^ 64) {physAddr : UInt64}
    (hallowed : PmAllowed start size s (.freePage physAddr))
    (hi : wsub 64 physAddr.toNat s.mm.memoryBase / pageSize < s.mm.memoryTotalPages) :
    ∃ i, kernelPages kernelHeapEnd ≤ i ∧ physAddr.toNat = start.toNat + i * pageSize ∧
      wsub 64 physAddr.toNat s.mm.memoryBase / pageSize = i := by
  have hphys := physAddr.toNat_lt
  have hstart := start.toNat_lt
  have htotal := h.total
  rcases hallowed with houtside | hreturned
  · -- the difference is beyond the region, also when it wraps around
    rw [h.base, h.total] at hi
    simp only [wsub, pageSize] at hi hwrap
    omega
  · obtain ⟨i, hle, -, haddr⟩ := h.returned _ hreturned
    refine ⟨i, hle, haddr, ?_⟩
    rw [h.base, wsub_of_le hphys (by omega), haddr]
    simp only [pageSize]
    omega

/-- A page is freed. -/
theorem freePage_inv (h : PmInv start size kernelHeapEnd s)
    (hwrap : start.toNat + size.toNat / pageSize * pageSize ≤ 2 ^ 64) {physAddr : UInt64}
    (hallowed : PmAllowed start size s (.freePage physAddr))
    (hs : pmStep s (.freePage physAddr) = some s') : PmInv start size kernelHeapEnd s' := by
  cases hs
  have hlive : ∀ a ∈ s.live.filter (· ≠ physAddr.toNat), a ∈ s.live ∧ a ≠ physAddr.toNat := by
    intro a ha
    simpa using List.mem_filter.mp ha
  rw [pmFreePage]
  split_ifs with hfree
  · obtain ⟨hi, hset⟩ := hfree
    obtain ⟨i, hle, haddr, hindex⟩ := freed_index h hwrap hallowed hi
    rw [hindex] at hi hset ⊢
    have hcleared := card_cleared hi hset
    have hmarked := markedPages_le s.mm
    have hsize := size.toNat_lt
    have htotal := h.total
    refine ⟨h.total, h.base, ?_, fun j hj hlt => ?_, h.returned, fun a ha => ?_⟩
    · have hused : wsub 64 s.mm.memoryUsedPages 1 = markedPages s.mm - 1 := by
        rw [h.used, wsub_of_le (by simp only [pageSize] at htotal; omega) (by
          rw [markedPages, ← hcleared]
          exact Nat.le_add_left 1 _)]
      dsimp only
      rw [hused, markedPages, ← hcleared]
      rfl
    · dsimp only
      rw [Function.update_of_ne (by omega)]
      exact h.kernel j hj hlt
    · obtain ⟨hmem, hne⟩ := hlive a ha
      obtain ⟨j, hj, haddr', hset'⟩ := h.live a hmem
      refine ⟨j, hj, haddr', ?_⟩
      dsimp only
      rw [Function.update_of_ne fun hji => hne (by rw [haddr', haddr, hji])]
      exact hset'
  · exact ⟨h.total, h.base, h.used, h.kernel, h.returned, fun a ha => h.live a (hlive a ha).1⟩

/-- **One call** keeps the invariant. -/
theorem pmStep_inv (hwrap : start.toNat + size.toNat / pageSize * pageSize ≤ 2 ^ 64)
    (s : PmHistory) (c : PmCall) (s' : PmHistory) (h : PmInv start size kernelHeapEnd s)
    (hallowed : PmAllowed start size s c) (hs : pmStep s c = some s') :
    PmInv start size kernelHeapEnd s' := by
  cases c with
  | allocPage => exact allocPage_inv h hwrap hs
  | freePage physAddr => exact freePage_inv h hwrap hallowed hs

theorem pmStart_inv (mm : Mm) (start size kernelHeapEnd : UInt64) :
    PmInv start size kernelHeapEnd (pmStart mm start size kernelHeapEnd) := by
  have hsize : size.toNat / pageSize < 2 ^ 64 := (Nat.div_le_self ..).trans_lt size.toNat_lt
  refine ⟨rfl, rfl, pmInitRegion_used rfl hsize, fun i hi hlt => ?_, fun a ha => ?_, fun a ha => ?_⟩
  · exact decide_eq_true ⟨hlt, hi⟩
  · cases ha
  · cases ha

/-- **The allocator of physical pages.** -/
theorem pages_ok (mm : Mm) (start size kernelHeapEnd : UInt64)
    (hwrap : start.toNat + size.toNat / pageSize * pageSize ≤ 2 ^ 64) (calls : List PmCall)
    (hcalls : Each pmStep (PmAllowed start size) (pmStart mm start size kernelHeapEnd) calls) :
    Always pmStep (PagesOk start kernelHeapEnd) (pmStart mm start size kernelHeapEnd) calls :=
  (always_of_each (pmStep_inv hwrap) (pmStart_inv mm start size kernelHeapEnd) hcalls).mono
    fun _ h => h.ok hwrap

/-- A region of four pages, where a page is allocated, freed twice, and an address outside is
freed. -/
theorem pages_ok_four :
    Always pmStep (PagesOk 0x100000 0x1000)
      (pmStart (mmEmpty fun _ => 0) 0x100000 0x4000 0x1000)
      [.allocPage, .freePage 0x101000, .freePage 0x101000, .freePage 0x200000, .allocPage] :=
  pages_ok (mmEmpty fun _ => 0) 0x100000 0x4000 0x1000 (by decide) _ (by decide)

/-- **A region that wraps around**: of two pages, the last one of memory and page 0, this is
returned as if no page were free. -/
theorem wrapped_region :
    ¬ Always pmStep (PagesOk 0xFFFFFFFFFFFFF000 0)
      (pmStart (mmEmpty fun _ => 0) 0xFFFFFFFFFFFFF000 0x2000 0) [.allocPage] := by
  rintro ⟨-, h⟩
  have hok := (h _ rfl).head
  have hall := (hok.full (by decide)).mp rfl
  exact absurd (hall 1 (by decide)) (by decide)

end PrismaticOS.Kernel
