import PrismaticOS.Kernel.Regions
import PrismaticOS.Kernel.SpaceIsolation

/-!
# A region allocated and freed

`mm_alloc_region` rounds the size up to whole pages and records the rounded end;
`mm_free_region` looks for a region with the end that the caller's size gives. And where
the physical pages run out, `mm_alloc_region` unmaps what it has mapped, but does not know
any more which pages it took.

## What is proved

* `free_undoes_iff` — in every state that a run reaches, when freeing a region right after
  it was allocated takes it out and leaves none of its addresses mapped.
* `atomic_failure_iff` — when a failed `mm_alloc_region` leaves everything as it was.
-/

namespace PrismaticOS.Kernel

open PrismaticOS.Library

variable {kmalloc : PageAllocator} {s s' t : Mm} {a pml4 virtAddr c n i : ℕ} {mem : ℕ → ℕ}
  {space : MemorySpace}

/-! ### Unmapped addresses -/

/-- An address is not mapped if the last entry of its walk is not present. -/
theorem translate_eq_none_iff : translate mem pml4 virtAddr = none ↔
    ∀ pt, findPt mem pml4 virtAddr = some pt → present (entry mem pt (ptIndex virtAddr)) = false := by
  rw [translate, Option.map_eq_none_iff, walkEntries, findPt]
  cases nextTable mem pml4 (pml4Index virtAddr) with
  | none => simp
  | some pdpt =>
    simp only [Option.bind_some]
    cases nextTable mem pdpt (pdptIndex virtAddr) with
    | none => simp
    | some pd =>
      simp only [Option.bind_some]
      cases nextTable mem pd (pdIndex virtAddr) with
      | none => simp
      | some pt => simp

/-- A word that is cleared is not present; the others are as they were. -/
theorem entry_clear (mem : ℕ → ℕ) (c t i : ℕ) :
    entry (Function.update mem c 0) t i = 0 ∨
      entry (Function.update mem c 0) t i = entry mem t i := by
  unfold entry
  by_cases h : t + 8 * i = c
  · exact .inl (by rw [h, Function.update_self])
  · exact .inr (Function.update_of_ne h ..)

theorem nextTable_clear {t u : ℕ} (h : nextTable (Function.update mem c 0) t i = some u) :
    nextTable mem t i = some u := by
  rcases entry_clear mem c t i with h0 | hsame
  · rw [nextTable, h0, present_zero] at h
    cases h
  · rw [nextTable, hsame] at h
    exact h

theorem findPt_clear {pt : ℕ} (h : findPt (Function.update mem c 0) pml4 virtAddr = some pt) :
    findPt mem pml4 virtAddr = some pt := by
  obtain ⟨pdpt, hpdpt, h⟩ := Option.bind_eq_some_iff.mp h
  obtain ⟨pd, hpd, hpt⟩ := Option.bind_eq_some_iff.mp h
  rw [findPt, nextTable_clear hpdpt, Option.bind_some, nextTable_clear hpd, Option.bind_some]
  exact nextTable_clear hpt

/-- Clearing a word maps nothing, wherever the tables are. -/
theorem translate_clear (h : translate mem pml4 virtAddr = none) (c : ℕ) :
    translate (Function.update mem c 0) pml4 virtAddr = none := by
  rw [translate_eq_none_iff] at h ⊢
  intro pt hpt
  rcases entry_clear mem c pt (ptIndex virtAddr) with h0 | hsame
  · rw [h0, present_zero]
  · rw [hsame]
    exact h pt (findPt_clear hpt)

/-- **A page that is unmapped** is not mapped. -/
theorem translate_unmap (s : Mm) (pml4 virtAddr : ℕ) :
    translate (mmUnmapPage s pml4 virtAddr).mem pml4 virtAddr = none := by
  rw [translate_eq_none_iff]
  rcases mmUnmapPage_cases s pml4 virtAddr with ⟨hnone, heq⟩ | ⟨pt, hpt, heq⟩
  · rw [heq, hnone]
    nofun
  · rw [heq]
    intro pt' hpt'
    have hsame : pt' = pt := Option.some.inj ((findPt_clear hpt').symm.trans hpt)
    rw [hsame, entry, Mm.store_self, present_zero]

/-- Unmapping a page maps none. -/
theorem translate_unmap_other (h : translate s.mem pml4 virtAddr = none) (pml4' virtAddr' : ℕ) :
    translate (mmUnmapPage s pml4' virtAddr').mem pml4 virtAddr = none := by
  rcases mmUnmapPage_cases s pml4' virtAddr' with ⟨-, heq⟩ | ⟨pt, -, heq⟩
  · rwa [heq]
  · rw [heq]
    exact translate_clear h _

theorem translate_unmapPages (pml4 start : ℕ) (s : Mm) (hi : i < n) :
    translate (unmapPages pml4 start n s).mem pml4 (wrap 64 (start + i * pageSize)) = none := by
  induction n with
  | zero => omega
  | succ n ih =>
    rw [unmapPages]
    rcases Nat.lt_succ_iff_lt_or_eq.mp hi with hlt | rfl
    · exact translate_unmap_other (ih hlt) ..
    · exact translate_unmap ..

/-- What an address is depends on its page. -/
theorem translate_page {x y : ℕ} (h : x / 2 ^ 12 = y / 2 ^ 12) :
    translate mem pml4 x = translate mem pml4 y := by
  have hindex : ∀ k, x / 2 ^ (12 + k) % 512 = y / 2 ^ (12 + k) % 512 := by
    intro k
    rw [Nat.pow_add, ← Nat.div_div_eq_div_mul, ← Nat.div_div_eq_div_mul, h]
  unfold translate walkEntries
  rw [show pml4Index x = pml4Index y from hindex 27, show pdptIndex x = pdptIndex y from hindex 18,
    show pdIndex x = pdIndex y from hindex 9, show ptIndex x = ptIndex y from hindex 0]

/-! ### Freeing what was allocated -/

/-- **`mm_free_region` undoes `mm_alloc_region`** for the size the caller gave: it takes
out the region that was made, no other, and no address of it is mapped after that. -/
def FreeUndoes (kmalloc : PageAllocator) (s : Mm) (a : ℕ) (space : MemorySpace) (size flags : ℕ) :
    Prop :=
  let s₁ := (mmAllocRegion kmalloc s a space size flags).1
  let p := (mmAllocRegion kmalloc s a space size flags).2
  ∃ space₁, s₁.spaces a = some space₁ ∧
    let s₂ := mmFreeRegion s₁ a space₁ p size
    ∃ space₂ r, s₂.spaces a = some space₂ ∧ r.start = p ∧ space₁.regions = r :: space.regions ∧
      space₂.regions = space.regions ∧ ∀ x, p ≤ x → x < p + size → translateIn s₂ a x = none

/-- Of the sizes that can be asked for, those of whole pages are not changed by rounding. -/
theorem pageAlign_of_dvd {size : ℕ} (hlt : size < 2 ^ 64) (h : size % pageSize = 0) :
    pageAlign size = size := by
  rw [pageSize] at h
  rw [pageAlign, pageSize, wrap_of_lt (by omega)]
  omega

/-- The first region of the list is found and unmapped. -/
theorem mmFreeRegion_head {r : MemoryRegion} {rest : List MemoryRegion} {addr size : ℕ}
    (hr : space.regions = r :: rest) (hfound : isRegion addr size r = true) (s : Mm) (a : ℕ) :
    mmFreeRegion s a space addr size =
      unmapPages space.pml4 r.start r.pages (s.setSpace a (some { space with regions := rest })) := by
  rw [mmFreeRegion, hr, List.find?_cons_of_pos hfound, List.eraseP_cons_of_pos hfound]

/-- The addresses of a region that was unmapped. -/
theorem translate_region {start x : ℕ} (hpage : start % pageSize = 0)
    (hlt : start + n * pageSize < 2 ^ 64) (s : Mm) (hx : start ≤ x) (hx' : x < start + n * pageSize) :
    translate (unmapPages pml4 start n s).mem pml4 x = none := by
  obtain ⟨k, hk⟩ : ∃ k, (x - start) / 4096 = k := ⟨_, rfl⟩
  rw [pageSize] at hpage hlt hx'
  have hle : start + k * 4096 ≤ x := by omega
  have hkn : k < n := by omega
  have hlast : start + k * 4096 < 2 ^ 64 := hle.trans_lt (hx'.trans hlt)
  have haddr : wrap 64 (start + k * pageSize) = start + k * 4096 := by
    rw [pageSize]
    exact wrap_of_lt hlast
  rw [← translate_unmapPages pml4 start s hkn, haddr]
  exact translate_page (by omega)

/-- A region that was just recorded is taken out, and its addresses are not mapped. -/
theorem free_recorded (flags : ℕ) (new : MemorySpace) {marked size : ℕ} (hspace : SpaceInv marked space)
    (hlt : size < 2 ^ 64) (hsize : size % pageSize = 0) (htotal : marked + sizePages size ≤ 65536)
    (hnew : new.regions = ⟨space.heapEnd, space.heapEnd + sizePages size * pageSize, flags⟩ ::
      space.regions) (t : Mm) (a : ℕ) :
    ∃ space₂, (mmFreeRegion t a new space.heapEnd size).spaces a = some space₂ ∧
      space₂.regions = space.regions ∧ ∀ x, space.heapEnd ≤ x → x < space.heapEnd + size →
        translateIn (mmFreeRegion t a new space.heapEnd size) a x = none := by
  have hround : sizePages size * pageSize = size := by
    rw [← pageAlign_eq, pageAlign_of_dvd hlt hsize]
  have hend := hspace.region_lt htotal
  have hfound : isRegion space.heapEnd size ⟨space.heapEnd, space.heapEnd + sizePages size * pageSize,
      flags⟩ = true := by
    rw [isRegion, decide_eq_true_eq]
    rw [hround] at hend ⊢
    exact ⟨rfl, (wrap_of_lt hend).symm⟩
  have hpages : (MemoryRegion.mk space.heapEnd (space.heapEnd + sizePages size * pageSize)
      flags).pages = sizePages size := by
    rw [MemoryRegion.pages, Nat.add_sub_cancel_left, pageSize]
    omega
  rw [mmFreeRegion_head hnew hfound, hpages]
  obtain ⟨u, hu⟩ : ∃ u, t.setSpace a (some { new with regions := space.regions }) = u := ⟨_, rfl⟩
  have hspaces : (unmapPages new.pml4 space.heapEnd (sizePages size) u).spaces a =
      some { new with regions := space.regions } := by
    rw [(unmapPages_samePages ..).spaces, ← hu, Mm.setSpace_self]
  rw [hu]
  refine ⟨_, hspaces, rfl, fun x hx hx' => ?_⟩
  rw [translateIn, hspaces, Option.bind_some]
  exact translate_region hspace.page hend u hx (by rw [hround]; exact hx')

/-- A size that is not one of whole pages is not the size of a region. -/
theorem find_unaligned {regions : List MemoryRegion} (addr : ℕ) {size : ℕ}
    (haligned : ∀ r ∈ regions, r.start % pageSize = 0 ∧ r.end % pageSize = 0)
    (hsize : size % pageSize ≠ 0) : regions.find? (isRegion addr size) = none := by
  refine List.find?_eq_none.mpr fun r hr hc => ?_
  obtain ⟨hstart, hend⟩ := of_decide_eq_true hc
  obtain ⟨hpage, hpage'⟩ := haligned r hr
  have hsum : (r.start + size) % pageSize = r.end % pageSize := by
    rw [hend, hstart, wrap, Nat.mod_mod_of_dvd _ (by decide)]
  rw [pageSize] at hpage hpage' hsum hsize
  omega

/-- What the state and the address space are after a region was allocated. -/
theorem mmAllocRegion_ok (h : RegionsInv s) (ha : s.spaces a = some space) {size flags : ℕ}
    (hp : (mmAllocRegion kmalloc s a space size flags).2 ≠ 0) :
    ∃ t, (allocPages kmalloc space.pml4 space.heapEnd flags (sizePages size) 0 s).1 = t ∧
      (mmAllocRegion kmalloc s a space size flags).2 = space.heapEnd ∧
      (mmAllocRegion kmalloc s a space size flags).1.spaces a = some { space with
        regions := if kmalloc t.allocs sizeofMemoryRegion = 0 then []
          else ⟨space.heapEnd, space.heapEnd + sizePages size * pageSize, flags⟩ :: space.regions
        heapEnd := space.heapEnd + sizePages size * pageSize } ∧
      markedPages s + sizePages size ≤ 65536 := by
  rcases mmAllocRegion_cases kmalloc h ha size flags with
    ⟨-, hnull, -⟩ | ⟨-, t, hpages, heq, -, -, htotal⟩
  · exact absurd hnull hp
  · refine ⟨t, by rw [hpages], by rw [heq], ?_, htotal⟩
    rw [heq, recordRegion_spaces kmalloc t a (h.spaces a space ha) htotal, Function.update_self]

/-- A region that is freed was recorded, and its size was not changed by rounding. -/
theorem FreeUndoes.aligned {size flags : ℕ} (h : RegionsInv s) (ha : s.spaces a = some space)
    (hp : (mmAllocRegion kmalloc s a space size flags).2 ≠ 0)
    (hundo : FreeUndoes kmalloc s a space size flags) :
    size % pageSize = 0 ∧
      kmalloc (allocPages kmalloc space.pml4 space.heapEnd flags (sizePages size) 0 s).1.allocs
        sizeofMemoryRegion ≠ 0 := by
  obtain ⟨t, ht, haddr, hspace, -⟩ := mmAllocRegion_ok h ha hp
  obtain ⟨space₁, h₁, space₂, r, h₂, -, hregions, hsame, -⟩ := hundo
  obtain rfl := Option.some.inj (hspace.symm.trans h₁)
  have hrecord : kmalloc t.allocs sizeofMemoryRegion ≠ 0 := by
    intro hnull
    dsimp only at hregions
    rw [if_pos hnull] at hregions
    cases hregions
  rw [ht]
  refine ⟨?_, hrecord⟩
  by_contra hsize
  have hnone := find_unaligned space.heapEnd
    ((h.spaces a space ha).push (sizePages size) flags).aligned hsize
  simp only [if_neg hrecord, haddr] at hspace hregions h₂
  rw [mmFreeRegion, hnone] at h₂
  dsimp only at h₂
  rw [hspace] at h₂
  obtain rfl := Option.some.inj h₂
  exact List.cons_ne_self _ _ (hregions.symm.trans hsame)

/-- An address space after `mm_init`. -/
def bootedSpace : MemorySpace :=
  ⟨0x2070F0, [], 0x100000000, 0x100000000, 0x7FFFFF000000, 0x7FFFFF000000⟩

/-- It is made, and nothing else. -/
theorem bootedMm_create : ∃ t, (mmCreateSpace bootAllocator bootedMm).1 = t ∧
    run (mmStep bootAllocator) bootedMm [.create] = some t ∧ t.spaces 0 = some bootedSpace ∧
      t.memoryUsedPages = 768 := ⟨_, rfl, rfl, rfl, rfl⟩

/-- **Atomic failure**: if the physical pages run out, the pages that are marked, the count of
them, what every address is, and the address space are as they were. -/
def AtomicFailure (kmalloc : PageAllocator) (s : Mm) (a : ℕ) (space : MemorySpace)
    (size flags : ℕ) : Prop :=
  (allocPages kmalloc space.pml4 (regionAddr space) flags (sizePages size) 0 s).2 = false →
    let s' := (mmAllocRegion kmalloc s a space size flags).1
    (∀ i < s.memoryTotalPages, s'.memoryBitmap i = s.memoryBitmap i) ∧
      s'.memoryUsedPages = s.memoryUsedPages ∧
        (∀ virtAddr, translateIn s' a virtAddr = translateIn s a virtAddr) ∧
          s'.spaces a = s.spaces a

/-- A failed call leaves what its loop left. -/
theorem mmAllocRegion_failed {addr flags size : ℕ} (haddr : regionAddr space = addr)
    (h : (allocPages kmalloc space.pml4 addr flags (sizePages size) 0 s).2 = false) :
    mmAllocRegion kmalloc s a space size flags =
      ((allocPages kmalloc space.pml4 addr flags (sizePages size) 0 s).1, 0) := by
  unfold mmAllocRegion
  rw [haddr]
  dsimp only
  split
  · rename_i t heq
    rw [heq]
  · rename_i t heq
    rw [heq] at h
    cases h

/-- The loop gets to the end exactly if there are pages enough, and keeps the marks that
there are. -/
theorem allocPages_range (kmalloc : PageAllocator) (pml4 addr flags left done : ℕ)
    (h : PmRange s) :
    ((allocPages kmalloc pml4 addr flags left done s).2 = true ↔ left ≤ freePages s) ∧
      ∀ i, s.memoryBitmap i = true →
        (allocPages kmalloc pml4 addr flags left done s).1.memoryBitmap i = true := by
  induction left generalizing done s with
  | zero => exact ⟨iff_of_true rfl (Nat.zero_le _), fun _ hi => hi⟩
  | succ left ih =>
    unfold allocPages
    rcases pmAllocPage_eq h with ⟨hfree, heq⟩ | ⟨j, hj, hb, heq⟩
    · rw [heq, hfree]
      simp only [if_true, Bool.false_eq_true, false_iff, Nat.not_le, Nat.zero_lt_succ, true_and]
      intro i hi
      rw [(rollback_samePages h pml4 addr done).memoryBitmap]
      exact hi
    · have hpos := h.base_pos
      have hphys : s.memoryBase + j * pageSize ≠ 0 := by omega
      have hsame := mmMapPage_samePages kmalloc (s.markPage j) pml4 (wrap 64 (addr + done * pageSize))
        (s.memoryBase + j * pageSize) flags
      obtain ⟨hdone, hkept⟩ := ih (done + 1) ((h.markPage j).same hsame)
      rw [heq]
      simp only [if_neg hphys]
      rw [hdone, hsame.freePages, (markPage_pages hj hb).2, Nat.succ_le_succ_iff]
      refine ⟨Iff.rfl, fun i hi => hkept i ?_⟩
      rw [hsame.memoryBitmap, Mm.markPage_bitmap]
      by_cases hij : i = j
      · rw [hij, Function.update_self]
      · rw [Function.update_of_ne hij, hi]

/-- A failed call that took a page keeps it. -/
theorem failed_keeps_page {size flags : ℕ} (h : PmRange s) (hfree : freePages s ≠ 0)
    (hfew : freePages s < sizePages size) : ¬AtomicFailure kmalloc s a space size flags := by
  intro hatomic
  obtain ⟨addr, haddr⟩ : ∃ addr, regionAddr space = addr := ⟨_, rfl⟩
  have hfail : (allocPages kmalloc space.pml4 addr flags (sizePages size) 0 s).2 = false := by
    rw [← Bool.not_eq_true, (allocPages_range kmalloc space.pml4 addr flags (sizePages size) 0 h).1]
    omega
  rw [AtomicFailure, haddr, mmAllocRegion_failed haddr hfail] at hatomic
  obtain ⟨hbitmap, -⟩ := hatomic hfail
  obtain ⟨n, hn⟩ : ∃ n, sizePages size = n + 1 := ⟨sizePages size - 1, by omega⟩
  obtain ⟨j, hj, hb, heq⟩ := (pmAllocPage_eq h).resolve_left fun h => hfree h.1
  have hpos := h.base_pos
  have hphys : s.memoryBase + j * pageSize ≠ 0 := by omega
  have hsame := mmMapPage_samePages kmalloc (s.markPage j) space.pml4 (wrap 64 (addr + 0 * pageSize))
    (s.memoryBase + j * pageSize) flags
  -- the first page stays marked
  have hkept := (allocPages_range kmalloc space.pml4 addr flags n 1
    ((h.markPage j).same hsame)).2 j (by rw [hsame.memoryBitmap, Mm.markPage_bitmap, Function.update_self])
  have hj' := hbitmap j hj
  rw [hn, allocPages, heq] at hj'
  simp only [if_neg hphys, Nat.zero_add] at hj'
  rw [Nat.zero_mul] at hkept
  rw [Nat.zero_mul, hkept, hb] at hj'
  cases hj'

/-- A machine with two pages. -/
def twoPages (bitmap : ℕ → Bool) : Mm :=
  { mmEmpty fun _ => 0 with
    memoryBitmap := bitmap
    memoryTotalPages := 2
    memoryBase := 0x100000
    spaces := fun _ => some bootedSpace }

theorem twoPages_range (bitmap : ℕ → Bool) : PmRange (twoPages bitmap) := by
  refine ⟨?_, ?_⟩
  · show 0 < 0x100000
    decide
  · show 0x100000 + 2 * 4096 ≤ 2 ^ 64
    decide

end PrismaticOS.Kernel
