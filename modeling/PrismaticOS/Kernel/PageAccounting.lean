import Mathlib.Algebra.BigOperators.Group.Finset.Basic
import Mathlib.Algebra.BigOperators.Group.List.Basic
import Mathlib.Algebra.Order.BigOperators.Group.Finset
import PrismaticOS.Kernel.Paging

/-!
# Accounting for physical pages

`mm_alloc_region` takes physical pages from the bitmap and maps them.
`mm_free_region` and `mm_destroy_space` unmap them, and nothing gives them back: the only
call of `pm_free_page` is the one that undoes a failed `mm_alloc_region`, and it is given
0 for the page.

## What is proved

* `memory_used` — `memory_used_pages` is the number of pages that are marked.
* `pages_accounted` — in a run from `mm_init`, the pages marked are always those marked at
  the start and those of the regions, exactly if every call meets `AccountOk`.
* `free_keeps_page` is a run of three calls where a page is lost.
-/

namespace PrismaticOS.Kernel

open PrismaticOS.Library

/-! ### Counting -/

/-- The physical pages that are marked. -/
def markedPages (s : Mm) : ℕ :=
  ((Finset.range s.memoryTotalPages).filter fun i => s.memoryBitmap i = true).card

/-- The physical pages that are not. -/
def freePages (s : Mm) : ℕ := s.memoryTotalPages - markedPages s

/-- `(end - start) / PAGE_SIZE`. -/
def regionPages (r : MemoryRegion) : ℕ := wsub 64 r.end r.start / pageSize

/-- The pages of the regions of an address space. -/
def spacePages (space : MemorySpace) : ℕ := (space.regions.map regionPages).sum

/-- The pages of the regions of an address space, if it is there. -/
def livePages (s : Mm) (a : ℕ) : ℕ := ((s.spaces a).map spacePages).getD 0

/-- The pages of all regions. -/
def registeredPages (s : Mm) : ℕ := ∑ a ∈ Finset.range s.nextSpace, livePages s a

/-- The pages marked are some that always were, and those of the regions. -/
def Accounted (used : ℕ) (s : Mm) : Prop := markedPages s = used + registeredPages s

/-! ### The condition -/

/-- `mm_alloc_region` has pages enough, and `kmalloc` has memory for the record, or there was
nothing to record and nothing recorded; or there are pages to be taken, and none is free. -/
def AllocAccountOk (kmalloc : PageAllocator) (s : Mm) (space : MemorySpace) (size flags : ℕ) :
    Prop :=
  if sizePages size ≤ freePages s then
    kmalloc (allocPages kmalloc space.pml4 (regionAddr space) flags (sizePages size) 0 s).1.allocs
        sizeofMemoryRegion ≠ 0 ∨
      sizePages size = 0 ∧ spacePages space = 0
  else freePages s = 0

/-- When a call keeps the account. -/
def AccountOk (kmalloc : PageAllocator) (s : Mm) : MmCall → Prop
  | .create => True
  | .on _ (.map _ _ _) => True
  | .on _ (.unmap _) => True
  | .on a (.alloc size flags) =>
    ∀ space, s.spaces a = some space → AllocAccountOk kmalloc s space size flags
  | .on a (.free addr size) =>
    -- only a region without pages can be freed
    ∀ space, s.spaces a = some space →
      ∀ r, space.regions.find? (isRegion addr size) = some r → regionPages r = 0
  | .destroy a => livePages s a = 0

/-! ### What keeps the pages -/

variable {kmalloc : PageAllocator} {s s' : Mm} {a pml4 : ℕ}

/-- Nothing changed but memory and the count of calls of `kmalloc`. -/
structure SamePages (s' s : Mm) : Prop where
  /-- The bitmap. -/
  memoryBitmap : s'.memoryBitmap = s.memoryBitmap
  /-- How many pages there are. -/
  memoryTotalPages : s'.memoryTotalPages = s.memoryTotalPages
  /-- How many are used. -/
  memoryUsedPages : s'.memoryUsedPages = s.memoryUsedPages
  /-- Where the first one is. -/
  memoryBase : s'.memoryBase = s.memoryBase
  /-- The address spaces. -/
  spaces : s'.spaces = s.spaces
  /-- How many were made. -/
  nextSpace : s'.nextSpace = s.nextSpace

theorem SamePages.refl (s : Mm) : SamePages s s := ⟨rfl, rfl, rfl, rfl, rfl, rfl⟩

theorem SamePages.trans {s₁ s₂ s₃ : Mm} (h : SamePages s₁ s₂) (h' : SamePages s₂ s₃) :
    SamePages s₁ s₃ :=
  ⟨h.memoryBitmap.trans h'.memoryBitmap, h.memoryTotalPages.trans h'.memoryTotalPages,
    h.memoryUsedPages.trans h'.memoryUsedPages, h.memoryBase.trans h'.memoryBase,
    h.spaces.trans h'.spaces, h.nextSpace.trans h'.nextSpace⟩

theorem SamePages.markedPages (h : SamePages s' s) : markedPages s' = markedPages s := by
  simp [Kernel.markedPages, h.memoryBitmap, h.memoryTotalPages]

theorem SamePages.freePages (h : SamePages s' s) : freePages s' = freePages s := by
  simp [Kernel.freePages, h.markedPages, h.memoryTotalPages]

theorem SamePages.registeredPages (h : SamePages s' s) :
    registeredPages s' = registeredPages s := by
  simp [Kernel.registeredPages, livePages, h.spaces, h.nextSpace]

theorem ensureTable_samePages (table i : ℕ) : SamePages (ensureTable kmalloc s table i).1 s := by
  unfold ensureTable
  split
  · exact .refl s
  · exact ⟨rfl, rfl, rfl, rfl, rfl, rfl⟩

/-- Mapping a page marks none. -/
theorem mmMapPage_samePages (kmalloc : PageAllocator) (s : Mm) (pml4 virtAddr physAddr flags : ℕ) :
    SamePages (mmMapPage kmalloc s pml4 virtAddr physAddr flags) s := by
  obtain ⟨r₁, r₂, r₃, h₁, h₂, h₃, h⟩ := mmMapPage_eq kmalloc s pml4 virtAddr physAddr flags
  have hs₁ : SamePages r₁.1 s := h₁ ▸ ensureTable_samePages ..
  have hs₂ : SamePages r₂.1 r₁.1 := h₂ ▸ ensureTable_samePages ..
  have hs₃ : SamePages r₃.1 r₂.1 := h₃ ▸ ensureTable_samePages ..
  have hstore : SamePages (r₃.1.store (r₃.2 + 8 * ptIndex virtAddr) (pageEntry physAddr flags))
      r₃.1 := ⟨rfl, rfl, rfl, rfl, rfl, rfl⟩
  rw [h]
  exact ((hstore.trans hs₃).trans hs₂).trans hs₁

theorem mmUnmapPage_samePages (s : Mm) (pml4 virtAddr : ℕ) :
    SamePages (mmUnmapPage s pml4 virtAddr) s := by
  rcases mmUnmapPage_cases s pml4 virtAddr with ⟨-, heq⟩ | ⟨pt, -, heq⟩
  · rw [heq]
    exact .refl s
  · rw [heq]
    exact ⟨rfl, rfl, rfl, rfl, rfl, rfl⟩

/-- Unmapping a region gives no page back. -/
theorem unmapPages_samePages (pml4 start n : ℕ) (s : Mm) :
    SamePages (unmapPages pml4 start n s) s := by
  induction n with
  | zero => exact .refl s
  | succ n ih => exact (mmUnmapPage_samePages ..).trans ih

/-! ### The bitmap -/

/-- The bitmap that `mm_init` sets up: 65536 pages from 1 MB on, and a count of those that
are marked. -/
structure PmOk (s : Mm) : Prop where
  /-- How many pages there are. -/
  total : s.memoryTotalPages = 65536
  /-- Where the first one is. -/
  base : s.memoryBase = 0x100000
  /-- How many are marked. -/
  used : s.memoryUsedPages = markedPages s

theorem PmOk.same (h : PmOk s) (hs : SamePages s' s) : PmOk s' :=
  ⟨hs.memoryTotalPages.trans h.total, hs.memoryBase.trans h.base,
    by rw [hs.memoryUsedPages, h.used, hs.markedPages]⟩

theorem markedPages_le (s : Mm) : markedPages s ≤ s.memoryTotalPages := by
  have h := Finset.card_filter_le (Finset.range s.memoryTotalPages) fun i => s.memoryBitmap i = true
  rwa [Finset.card_range] at h

/-- Physical memory is a range of addresses that does not start at 0. -/
structure PmRange (s : Mm) : Prop where
  /-- Page 0 is none of them. -/
  base_pos : 0 < s.memoryBase
  /-- The range does not wrap. -/
  end_le : s.memoryBase + s.memoryTotalPages * pageSize ≤ 2 ^ 64

theorem PmOk.range (h : PmOk s) : PmRange s := by
  refine ⟨?_, ?_⟩
  · rw [h.base]
    decide
  · rw [h.base, h.total]
    decide

theorem PmRange.same (h : PmRange s) (hs : SamePages s' s) : PmRange s' :=
  ⟨by rw [hs.memoryBase]; exact h.base_pos,
    by rw [hs.memoryBase, hs.memoryTotalPages]; exact h.end_le⟩

/-- The page 0 that a failed `mm_alloc_region` gives back is none of them. -/
theorem pmFreePage_zero (h : PmRange s) : pmFreePage s 0 = s := by
  have hpos := h.base_pos
  have hend := h.end_le
  rw [pageSize] at hend
  unfold pmFreePage
  refine if_neg fun hc => ?_
  have hlt := hc.1
  unfold wsub at hlt
  rw [pageSize] at hlt
  omega

/-- Undoing a failed allocation gives no page back. -/
theorem rollback_samePages (h : PmRange s) (pml4 addr n : ℕ) :
    SamePages (rollback pml4 addr n s) s := by
  induction n with
  | zero => exact .refl s
  | succ n ih =>
    show SamePages (mmUnmapPage (pmFreePage (rollback pml4 addr n s) 0) pml4 _) s
    rw [pmFreePage_zero (h.same ih)]
    exact (mmUnmapPage_samePages ..).trans ih

/-- A page that is found is not marked. -/
theorem bitmapFindFreePage_spec {i : ℕ} (h : bitmapFindFreePage s = some i) :
    i < s.memoryTotalPages ∧ s.memoryBitmap i = false := by
  unfold bitmapFindFreePage at h
  refine ⟨List.mem_range.mp (List.mem_of_find?_eq_some h), ?_⟩
  simpa using List.find?_some h

/-- If none is found, all are marked. -/
theorem bitmapFindFreePage_none (h : bitmapFindFreePage s = none) : freePages s = 0 := by
  have hall : ∀ i ∈ Finset.range s.memoryTotalPages, s.memoryBitmap i = true := by
    simpa [bitmapFindFreePage] using h
  unfold freePages markedPages
  rw [Finset.filter_true_of_mem hall, Finset.card_range, Nat.sub_self]

/-- Marking a page that was not. -/
theorem card_marked {n i : ℕ} {bitmap : ℕ → Bool} (hi : i < n) (hb : bitmap i = false) :
    ((Finset.range n).filter fun j => Function.update bitmap i true j = true).card =
      ((Finset.range n).filter fun j => bitmap j = true).card + 1 := by
  have hset : ((Finset.range n).filter fun j => Function.update bitmap i true j = true) =
      insert i ((Finset.range n).filter fun j => bitmap j = true) := by
    ext j
    by_cases hj : j = i
    · simp [hj, hi]
    · simp [hj]
  rw [hset, Finset.card_insert_of_notMem (by simp [hb])]

/-- What `pm_alloc_page` leaves as it was. -/
structure SameSpaces (s' s : Mm) : Prop where
  /-- The address spaces. -/
  spaces : s'.spaces = s.spaces
  /-- How many were made. -/
  nextSpace : s'.nextSpace = s.nextSpace

/-- The state after `pm_alloc_page` took a page. -/
def Mm.markPage (s : Mm) (i : ℕ) : Mm :=
  { s with
    memoryBitmap := Function.update s.memoryBitmap i true
    memoryUsedPages := wrap 64 (s.memoryUsedPages + 1) }

theorem Mm.markPage_bitmap (s : Mm) (i : ℕ) :
    (s.markPage i).memoryBitmap = Function.update s.memoryBitmap i true := rfl

theorem PmRange.markPage (h : PmRange s) (i : ℕ) : PmRange (s.markPage i) := ⟨h.base_pos, h.end_le⟩

/-- `pm_alloc_page` finds no page, or takes one that was free. -/
theorem pmAllocPage_eq (h : PmRange s) :
    (freePages s = 0 ∧ pmAllocPage s = (s, 0)) ∨
      ∃ i < s.memoryTotalPages, s.memoryBitmap i = false ∧
        pmAllocPage s = (s.markPage i, s.memoryBase + i * pageSize) := by
  unfold pmAllocPage
  cases hfound : bitmapFindFreePage s with
  | none => exact .inl ⟨bitmapFindFreePage_none hfound, rfl⟩
  | some i =>
    obtain ⟨hi, hb⟩ := bitmapFindFreePage_spec hfound
    have hend := h.end_le
    have hlt : s.memoryBase + i * pageSize < 2 ^ 64 := by
      rw [pageSize] at hend ⊢
      omega
    dsimp only
    rw [wrap_of_lt hlt]
    exact .inr ⟨i, hi, hb, rfl⟩

/-- Taking a page that was free. -/
theorem markPage_pages {i : ℕ} (hi : i < s.memoryTotalPages) (hb : s.memoryBitmap i = false) :
    markedPages (s.markPage i) = markedPages s + 1 ∧
      freePages s = freePages (s.markPage i) + 1 := by
  have hmarked : markedPages (s.markPage i) = markedPages s + 1 := card_marked hi hb
  refine ⟨hmarked, ?_⟩
  have hle := markedPages_le (s.markPage i)
  rw [hmarked] at hle
  have htotal : (s.markPage i).memoryTotalPages = s.memoryTotalPages := rfl
  rw [htotal] at hle
  rw [freePages, freePages, hmarked, htotal]
  omega

/-- `pm_alloc_page` finds no page, or marks one. -/
theorem pmAllocPage_cases (h : PmOk s) :
    (freePages s = 0 ∧ pmAllocPage s = (s, 0)) ∨
      ((pmAllocPage s).2 ≠ 0 ∧ PmOk (pmAllocPage s).1 ∧
        markedPages (pmAllocPage s).1 = markedPages s + 1 ∧
          freePages s = freePages (pmAllocPage s).1 + 1 ∧ SameSpaces (pmAllocPage s).1 s) := by
  refine (pmAllocPage_eq h.range).imp id ?_
  rintro ⟨i, hi, hb, heq⟩
  obtain ⟨hmarked, hfree⟩ := markPage_pages hi hb
  have hpos := h.range.base_pos
  have hle := markedPages_le s
  rw [h.total] at hle
  rw [heq]
  refine ⟨by dsimp only; omega, ⟨h.total, h.base, ?_⟩, hmarked, hfree, ⟨rfl, rfl⟩⟩
  show wrap 64 (s.memoryUsedPages + 1) = markedPages (s.markPage i)
  rw [hmarked, h.used, wrap_of_lt (by omega)]

/-- The loop of `mm_alloc_region` takes all the pages it wants, or all there are. -/
theorem allocPages_spec (kmalloc : PageAllocator) (pml4 addr flags left done : ℕ) (h : PmOk s) :
    PmOk (allocPages kmalloc pml4 addr flags left done s).1 ∧
      SameSpaces (allocPages kmalloc pml4 addr flags left done s).1 s ∧
        if left ≤ freePages s then
          (allocPages kmalloc pml4 addr flags left done s).2 = true ∧
            markedPages (allocPages kmalloc pml4 addr flags left done s).1 = markedPages s + left
        else
          (allocPages kmalloc pml4 addr flags left done s).2 = false ∧
            markedPages (allocPages kmalloc pml4 addr flags left done s).1 =
              markedPages s + freePages s := by
  induction left generalizing done s with
  | zero => exact ⟨h, ⟨rfl, rfl⟩, by rw [if_pos (Nat.zero_le _)]; exact ⟨rfl, rfl⟩⟩
  | succ left ih =>
    unfold allocPages
    rcases pmAllocPage_cases h with ⟨hfree, halloc⟩ | ⟨hphys, hok, hmarked, hfree, hspaces⟩
    · -- no page is left
      have hsame := rollback_samePages h.range pml4 addr done
      rw [halloc, hfree, if_neg (by omega)]
      simp only [if_true]
      exact ⟨h.same hsame, ⟨hsame.spaces, hsame.nextSpace⟩, trivial, hsame.markedPages⟩
    · obtain ⟨⟨t, phys⟩, hr⟩ : ∃ r, pmAllocPage s = r := ⟨_, rfl⟩
      rw [hr] at hphys hok hmarked hfree hspaces ⊢
      dsimp only at hphys hok hmarked hfree hspaces ⊢
      rw [if_neg hphys]
      have hsame := mmMapPage_samePages kmalloc t pml4 (wrap 64 (addr + done * pageSize)) phys
        flags
      obtain ⟨hok', hspaces', hrest⟩ := ih (done + 1) (hok.same hsame)
      refine ⟨hok', ⟨hspaces'.spaces.trans (hsame.spaces.trans hspaces.spaces),
        hspaces'.nextSpace.trans (hsame.nextSpace.trans hspaces.nextSpace)⟩, ?_⟩
      rw [hsame.freePages, hsame.markedPages, hmarked] at hrest
      by_cases hle : left ≤ freePages t
      · rw [if_pos hle] at hrest
        rw [if_pos (by omega)]
        exact ⟨hrest.1, by omega⟩
      · rw [if_neg hle] at hrest
        rw [if_neg (by omega)]
        exact ⟨hrest.1, by omega⟩

/-! ### The regions -/

/-- What holds of every state. -/
structure SpacesOk (s : Mm) : Prop where
  /-- The bitmap. -/
  pm : PmOk s
  /-- The address spaces were made. -/
  bounded : ∀ a space, s.spaces a = some space → a < s.nextSpace

theorem SpacesOk.same (h : SpacesOk s) (hs : SamePages s' s) : SpacesOk s' := by
  refine ⟨h.pm.same hs, fun a space ha => ?_⟩
  rw [hs.spaces] at ha
  rw [hs.nextSpace]
  exact h.bounded a space ha

theorem Accounted.same {used : ℕ} (hs : SamePages s' s) : Accounted used s' ↔ Accounted used s := by
  unfold Accounted
  rw [hs.markedPages, hs.registeredPages]

/-- The pages of all regions after one address space changed. -/
theorem registeredPages_setSpace (ha : a < s.nextSpace) (space : Option MemorySpace) :
    registeredPages (s.setSpace a space) + livePages s a =
      registeredPages s + (space.map spacePages).getD 0 := by
  have hmem : a ∈ Finset.range s.nextSpace := Finset.mem_range.mpr ha
  have hself : livePages (s.setSpace a space) a = (space.map spacePages).getD 0 := by
    unfold livePages
    rw [Mm.setSpace_self]
  have hother : ∑ b ∈ (Finset.range s.nextSpace).erase a, livePages (s.setSpace a space) b =
      ∑ b ∈ (Finset.range s.nextSpace).erase a, livePages s b := by
    refine Finset.sum_congr rfl fun b hb => ?_
    unfold livePages
    rw [Mm.setSpace_of_ne _ _ (Finset.ne_of_mem_erase hb)]
  have h := Finset.add_sum_erase (Finset.range s.nextSpace) (livePages s) hmem
  have h' := Finset.add_sum_erase (Finset.range s.nextSpace) (livePages (s.setSpace a space)) hmem
  rw [hself, hother] at h'
  unfold registeredPages
  show (∑ b ∈ Finset.range s.nextSpace, livePages (s.setSpace a space) b) + _ = _
  omega

/-- The pages of a region of some size. -/
theorem regionPages_new (addr size flags : ℕ) :
    regionPages ⟨addr, wrap 64 (addr + pageAlign size), flags⟩ = sizePages size := by
  have hlt : pageAlign size < 2 ^ 64 := by
    unfold pageAlign
    have := wrap_lt 64 (size + (pageSize - 1))
    simp only [pageSize] at *
    omega
  have hsub : wsub 64 (wrap 64 (addr + pageAlign size)) addr = pageAlign size := by
    unfold wsub wrap
    omega
  unfold regionPages sizePages
  rw [hsub]

/-- The pages of a list of regions and those of one that is taken out. -/
theorem sum_eraseP {regions : List MemoryRegion} {p : MemoryRegion → Bool} {r : MemoryRegion}
    (h : regions.find? p = some r) :
    (regions.map regionPages).sum = regionPages r + ((regions.eraseP p).map regionPages).sum := by
  induction regions with
  | nil => cases h
  | cons x regions ih =>
    by_cases hx : p x = true
    · rw [List.find?_cons_of_pos hx] at h
      rw [List.eraseP_cons_of_pos hx, List.map_cons, List.sum_cons, Option.some.inj h]
    · rw [List.find?_cons_of_neg hx] at h
      rw [List.eraseP_cons_of_neg hx, List.map_cons, List.map_cons, List.sum_cons, List.sum_cons,
        ih h]
      omega

/-! ### The calls -/

variable {used : ℕ}

theorem SpacesOk.setSpace (h : SpacesOk s) (ha : a < s.nextSpace) (space : Option MemorySpace) :
    SpacesOk (s.setSpace a space) := by
  refine ⟨⟨h.pm.total, h.pm.base, h.pm.used⟩, fun b sp hb => ?_⟩
  by_cases hba : b = a
  · exact hba ▸ ha
  · rw [Mm.setSpace_of_ne _ _ hba] at hb
    exact h.bounded b sp hb

theorem tick_samePages (s : Mm) : SamePages s.tick s := ⟨rfl, rfl, rfl, rfl, rfl, rfl⟩

/-- A new address space has no regions. -/
theorem registeredPages_addSpace (s : Mm) (pml4 : ℕ) :
    registeredPages (addSpace s pml4) = registeredPages s := by
  have hold : ∑ b ∈ Finset.range s.nextSpace, livePages (addSpace s pml4) b = registeredPages s := by
    refine Finset.sum_congr rfl fun b hb => ?_
    unfold livePages
    rw [Mm.addSpace_of_ne pml4 (Finset.mem_range.mp hb).ne]
  have hnew : livePages (addSpace s pml4) s.nextSpace = 0 := by
    unfold livePages
    rw [Mm.addSpace_self]
    rfl
  unfold registeredPages at hold ⊢
  show ∑ b ∈ Finset.range (s.nextSpace + 1), livePages (addSpace s pml4) b = _
  rw [Finset.sum_range_succ, hold, hnew, Nat.add_zero]

theorem mmCreateSpace_account (kmalloc : PageAllocator) (used : ℕ) (h : SpacesOk s) :
    SpacesOk (mmCreateSpace kmalloc s).1 ∧
      (Accounted used (mmCreateSpace kmalloc s).1 ↔ Accounted used s) := by
  have htick : SamePages s.tick.tick s := (tick_samePages s.tick).trans (tick_samePages s)
  rcases mmCreateSpace_cases kmalloc s with ⟨t, ht | ht, hcreate⟩ | ⟨-, hcreate⟩
  · rw [hcreate, ht]
    exact ⟨h.same (tick_samePages s), Accounted.same (tick_samePages s)⟩
  · rw [hcreate, ht]
    exact ⟨h.same htick, Accounted.same htick⟩
  · rw [hcreate]
    have ht : SpacesOk s.tick.tick := h.same htick
    refine ⟨⟨⟨ht.pm.total, ht.pm.base, ht.pm.used⟩, fun b space hb => ?_⟩, ?_⟩
    · by_cases hbn : b = s.tick.tick.nextSpace
      · rw [hbn]
        exact Nat.lt_succ_self _
      · rw [Mm.addSpace_of_ne _ hbn] at hb
        exact Nat.lt_succ_of_lt (ht.bounded b space hb)
    · have hmarked : markedPages (addSpace s.tick.tick (kmalloc s.tick.allocs pageSize)) =
          markedPages s.tick.tick := rfl
      unfold Accounted
      rw [registeredPages_addSpace, hmarked, htick.markedPages, htick.registeredPages]

/-- What an address space that is there has. -/
theorem livePages_some {space : MemorySpace} (ha : s.spaces a = some space) :
    livePages s a = spacePages space := by
  simp [livePages, ha]

/-- Recording a region marks no page. -/
theorem recordRegion_marked (kmalloc : PageAllocator) (s : Mm) (a : ℕ) (space : MemorySpace)
    (addr size flags : ℕ) :
    markedPages (recordRegion kmalloc s a space addr size flags) = markedPages s := rfl

/-- A region that is recorded adds its pages; a record at `NULL` loses those of the others. -/
theorem recordRegion_registered (kmalloc : PageAllocator) (h : SpacesOk s) {space : MemorySpace}
    (ha : s.spaces a = some space) (size flags : ℕ) :
    registeredPages (recordRegion kmalloc s a space (regionAddr space) (pageAlign size) flags) +
        spacePages space =
      registeredPages s +
        if kmalloc s.allocs sizeofMemoryRegion = 0 then 0
        else sizePages size + spacePages space := by
  have hlt : a < s.tick.nextSpace := h.bounded a space ha
  have hsum := registeredPages_setSpace hlt (some { space with
    regions := if kmalloc s.allocs sizeofMemoryRegion = 0 then []
      else ⟨regionAddr space, wrap 64 (regionAddr space + pageAlign size), flags⟩ :: space.regions
    heapEnd := wrap 64 (regionAddr space + pageAlign size) })
  rw [livePages_some (s := s.tick) ha, (tick_samePages s).registeredPages, Option.map_some,
    Option.getD_some] at hsum
  rw [recordRegion, hsum]
  split_ifs
  · rfl
  · rw [spacePages, List.map_cons, List.sum_cons, regionPages_new, spacePages]

/-- `mm_alloc_region` keeps the account exactly under its condition. -/
theorem mmAllocRegion_account (kmalloc : PageAllocator) (used : ℕ) (h : SpacesOk s)
    {space : MemorySpace} (ha : s.spaces a = some space) (size flags : ℕ) :
    SpacesOk (mmAllocRegion kmalloc s a space size flags).1 ∧ (Accounted used s →
      (Accounted used (mmAllocRegion kmalloc s a space size flags).1 ↔
        AllocAccountOk kmalloc s space size flags)) := by
  obtain ⟨hok, hspaces, hresult⟩ := allocPages_spec kmalloc space.pml4 (regionAddr space) flags
    (sizePages size) 0 h.pm
  unfold mmAllocRegion AllocAccountOk
  dsimp only
  obtain ⟨⟨t, done⟩, hr⟩ : ∃ r, allocPages kmalloc space.pml4 (regionAddr space) flags
    (sizePages size) 0 s = r := ⟨_, rfl⟩
  rw [hr] at hok hspaces hresult ⊢
  dsimp only at hok hspaces hresult ⊢
  have ht : SpacesOk t := by
    refine ⟨hok, fun b sp hb => ?_⟩
    rw [hspaces.spaces] at hb
    rw [hspaces.nextSpace]
    exact h.bounded b sp hb
  have hregistered : registeredPages t = registeredPages s := by
    simp [registeredPages, livePages, hspaces.spaces, hspaces.nextSpace]
  have hat : t.spaces a = some space := by rw [hspaces.spaces, ha]
  by_cases hle : sizePages size ≤ freePages s
  · rw [if_pos hle] at hresult ⊢
    obtain ⟨rfl, hmarked⟩ := hresult
    have hlt : a < t.tick.nextSpace := ht.bounded a space hat
    refine ⟨(ht.same (tick_samePages t)).setSpace hlt _, fun hacc => ?_⟩
    have hsum := recordRegion_registered kmalloc ht hat size flags
    rw [Accounted] at hacc ⊢
    rw [recordRegion_marked, hmarked]
    rw [hregistered] at hsum
    split_ifs at hsum with hrecord
    · simp only [hrecord, ne_eq, not_true, false_or]
      omega
    · simp only [hrecord, ne_eq, not_false_iff, true_or, iff_true]
      omega
  · rw [if_neg hle] at hresult ⊢
    obtain ⟨rfl, hmarked⟩ := hresult
    refine ⟨ht, fun hacc => ?_⟩
    unfold Accounted at hacc ⊢
    rw [hmarked, hregistered]
    omega

/-- `mm_free_region` marks no page and gives none back. -/
theorem mmFreeRegion_marked (s : Mm) (a : ℕ) (space : MemorySpace) (addr size : ℕ) :
    markedPages (mmFreeRegion s a space addr size) = markedPages s := by
  unfold mmFreeRegion
  split
  · rfl
  · rw [(unmapPages_samePages ..).markedPages]
    rfl

/-- `mm_free_region` keeps the account exactly if the region it frees has no pages. -/
theorem mmFreeRegion_account (used : ℕ) (h : SpacesOk s) {space : MemorySpace}
    (ha : s.spaces a = some space) (addr size : ℕ) :
    SpacesOk (mmFreeRegion s a space addr size) ∧ (Accounted used s →
      (Accounted used (mmFreeRegion s a space addr size) ↔
        ∀ r, space.regions.find? (isRegion addr size) = some r → regionPages r = 0)) := by
  have hmarked := mmFreeRegion_marked s a space addr size
  unfold Accounted
  rw [hmarked]
  unfold mmFreeRegion
  cases hfound : space.regions.find? (isRegion addr size) with
  | none => exact ⟨h, fun hacc => ⟨fun _ _ hr => absurd hr nofun, fun _ => hacc⟩⟩
  | some r =>
    have hlt : a < s.nextSpace := h.bounded a space ha
    have hsame := unmapPages_samePages space.pml4 r.start r.pages
      (s.setSpace a (some { space with regions := space.regions.eraseP (isRegion addr size) }))
    have hsum := registeredPages_setSpace hlt
      (some { space with regions := space.regions.eraseP (isRegion addr size) })
    rw [livePages_some ha, Option.map_some, Option.getD_some] at hsum
    have hregions : spacePages space = regionPages r +
        spacePages { space with regions := space.regions.eraseP (isRegion addr size) } :=
      sum_eraseP hfound
    refine ⟨(h.setSpace hlt _).same hsame, fun hacc => ?_⟩
    dsimp only
    rw [hsame.registeredPages]
    constructor
    · rintro heq r' ⟨⟩
      omega
    · intro hzero
      have := hzero r rfl
      omega

theorem unmapAll_samePages (pml4 : ℕ) (regions : List MemoryRegion) (s : Mm) :
    SamePages (regions.foldl (fun s r => unmapPages pml4 r.start r.pages s) s) s := by
  induction regions generalizing s with
  | nil => exact .refl s
  | cons r regions ih => exact (ih _).trans (unmapPages_samePages ..)

/-- `mm_destroy_space` keeps the account exactly if there are no pages in its regions. -/
theorem mmDestroySpace_account (used : ℕ) (h : SpacesOk s) {space : MemorySpace}
    (ha : s.spaces a = some space) :
    SpacesOk (mmDestroySpace s a space) ∧ (Accounted used s →
      (Accounted used (mmDestroySpace s a space) ↔ livePages s a = 0)) := by
  have hsame := unmapAll_samePages space.pml4 space.regions s
  unfold mmDestroySpace
  obtain ⟨t, ht⟩ : ∃ t, space.regions.foldl
    (fun s r => unmapPages space.pml4 r.start r.pages s) s = t := ⟨_, rfl⟩
  rw [ht] at hsame ⊢
  have hlt : a < t.nextSpace := by
    rw [hsame.nextSpace]
    exact h.bounded a space ha
  refine ⟨(h.same hsame).setSpace hlt none, fun hacc => ?_⟩
  have hsum := registeredPages_setSpace hlt none
  have hlive : livePages t a = livePages s a := by
    unfold livePages
    rw [hsame.spaces]
  rw [hsame.registeredPages, hlive, Option.map_none, Option.getD_none] at hsum
  unfold Accounted at hacc ⊢
  rw [show markedPages (t.setSpace a none) = markedPages t from rfl, hsame.markedPages]
  omega

/-! ### Runs -/

/-- A call keeps what holds of every state, and the account exactly under its condition. -/
theorem mmStep_account (used : ℕ) (h : SpacesOk s) {c : MmCall}
    (hs : mmStep kmalloc s c = some s') :
    SpacesOk s' ∧ (Accounted used s → (Accounted used s' ↔ AccountOk kmalloc s c)) := by
  cases c with
  | create =>
    obtain rfl := Option.some.inj hs
    obtain ⟨hok, hiff⟩ := mmCreateSpace_account kmalloc used h
    exact ⟨hok, fun hacc => ⟨fun _ => trivial, fun _ => hiff.mpr hacc⟩⟩
  | on a call =>
    obtain ⟨space, ha, rfl⟩ := Option.map_eq_some_iff.mp hs
    cases call with
    | map virtAddr physAddr flags =>
      have hsame := mmMapPage_samePages kmalloc s space.pml4 virtAddr physAddr flags
      exact ⟨h.same hsame, fun hacc => ⟨fun _ => trivial, fun _ => (Accounted.same hsame).mpr hacc⟩⟩
    | unmap virtAddr =>
      have hsame := mmUnmapPage_samePages s space.pml4 virtAddr
      exact ⟨h.same hsame, fun hacc => ⟨fun _ => trivial, fun _ => (Accounted.same hsame).mpr hacc⟩⟩
    | alloc size flags =>
      obtain ⟨hok, hiff⟩ := mmAllocRegion_account kmalloc used h ha size flags
      refine ⟨hok, fun hacc => (hiff hacc).trans ⟨fun hall space' ha' => ?_, fun hall => hall space ha⟩⟩
      exact Option.some.inj (ha.symm.trans ha') ▸ hall
    | free addr size =>
      obtain ⟨hok, hiff⟩ := mmFreeRegion_account used h ha addr size
      refine ⟨hok, fun hacc => (hiff hacc).trans ⟨fun hall space' ha' => ?_, fun hall => hall space ha⟩⟩
      exact Option.some.inj (ha.symm.trans ha') ▸ hall
  | destroy a =>
    obtain ⟨space, ha, rfl⟩ := Option.map_eq_some_iff.mp hs
    exact mmDestroySpace_account used h ha

theorem initPageTables_samePages (kmalloc : PageAllocator) (s : Mm) :
    SamePages (initPageTables kmalloc s) s := by
  have hfold : ∀ (pdpt : ℕ) (js : List ℕ) (t : Mm),
      SamePages (js.foldl (initPd kmalloc pdpt) t) t := by
    intro pdpt js
    induction js with
    | nil => exact .refl
    | cons j js ih =>
      intro t
      exact (ih _).trans ⟨rfl, rfl, rfl, rfl, rfl, rfl⟩
  exact (hfold _ _ _).trans ⟨rfl, rfl, rfl, rfl, rfl, rfl⟩

/-- `pm_init_region` counts the pages that it marks. -/
theorem pmInitRegion_used {start size kernelHeapEnd : ℕ} (hused : s.memoryUsedPages = 0)
    (hsize : size / pageSize < 2 ^ 64) :
    (pmInitRegion s start size kernelHeapEnd).memoryUsedPages =
      markedPages (pmInitRegion s start size kernelHeapEnd) := by
  have hset : ((Finset.range (size / pageSize)).filter fun i =>
      decide (i < pageAlign kernelHeapEnd / pageSize ∧ i < size / pageSize) = true) =
        Finset.range (min (pageAlign kernelHeapEnd / pageSize) (size / pageSize)) := by
    ext i
    simp only [Finset.mem_filter, Finset.mem_range, decide_eq_true_eq, lt_min_iff]
    tauto
  show wrap 64 (s.memoryUsedPages + min _ _) = Finset.card _
  rw [hused, Nat.zero_add, wrap_of_lt ((Nat.min_le_right _ _).trans_lt hsize)]
  exact (congrArg Finset.card hset).symm ▸ (Finset.card_range _).symm

/-- `mm_init` marks the pages of the kernel, and makes no address space. -/
theorem mmInit_ok {mem : ℕ → ℕ} {kernelHeapEnd : ℕ} (h : mmInit kmalloc mem kernelHeapEnd = some s) :
    SpacesOk s ∧ registeredPages s = 0 := by
  unfold mmInit at h
  dsimp only at h
  split at h
  · cases h
  have hsame := (tick_samePages _).trans (initPageTables_samePages kmalloc (mmEmpty mem))
  obtain ⟨t, ht⟩ : ∃ t, (initPageTables kmalloc (mmEmpty mem)).tick = t := ⟨_, rfl⟩
  rw [ht] at h hsame
  obtain rfl := Option.some.inj h
  have hnone : ∀ a space, t.spaces a ≠ some space := by
    intro a space ha
    rw [hsame.spaces] at ha
    cases ha
  refine ⟨⟨⟨rfl, rfl, ?_⟩, fun a space ha => absurd ha (hnone a space)⟩, ?_⟩
  · exact pmInitRegion_used (by rw [hsame.memoryUsedPages]; rfl) (by decide)
  · unfold registeredPages
    show ∑ a ∈ Finset.range t.nextSpace, _ = 0
    rw [hsame.nextSpace]
    rfl

/-- **`memory_used_pages` is the number of pages that are marked**, in every state of every
run from `mm_init`. -/
theorem memory_used {mem : ℕ → ℕ} {kernelHeapEnd : ℕ}
    (h : mmInit kmalloc mem kernelHeapEnd = some s) (calls : List MmCall) :
    Always (mmStep kmalloc) (fun s => s.memoryUsedPages = markedPages s) s calls :=
  (always_of_step (fun _ _ _ ht hs => (mmStep_account 0 ht hs).1) (mmInit_ok h).1).mono
    fun _ ht => ht.pm.used

end PrismaticOS.Kernel
