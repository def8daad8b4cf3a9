import PrismaticOS.Kernel.PageAccounting

/-!
# The regions of an address space

`mm_alloc_region` puts a region at the end of the heap, and looks for an address in no
region from there; that search compares the first address only. The end of the heap never
goes down, and each page above 4 GB that it has passed took one of the 65536 physical
pages, none of which is ever given back. So it stays within 256 MB of 4 GB.

## What is proved

* `regions_ok` — in every run from `mm_init` the regions are made of whole pages, share no
  address, and lie below the end of the heap, so that the search takes the first address
  it tries.
-/

namespace PrismaticOS.Kernel

open PrismaticOS.Library

/-- The regions of an address space share no address, and the search for an address does
not find a region in its way. -/
structure RegionsOk (space : MemorySpace) : Prop where
  /-- Regions are made of whole pages. -/
  aligned : ∀ r ∈ space.regions, r.start % pageSize = 0 ∧ r.end % pageSize = 0
  /-- No two share an address. -/
  disjoint : space.regions.Pairwise fun r r' => r.end ≤ r'.start ∨ r'.end ≤ r.start
  /-- They end below the end of the heap. -/
  below : ∀ r ∈ space.regions, r.start ≤ r.end ∧ r.end ≤ space.heapEnd
  /-- The search does not start again. -/
  noRestart : conflict space.regions space.heapEnd = none

/-- What is kept of an address space, for a number of marked pages. -/
structure SpaceInv (marked : ℕ) (space : MemorySpace) : Prop where
  /-- Regions are made of whole pages. -/
  aligned : ∀ r ∈ space.regions, r.start % pageSize = 0 ∧ r.end % pageSize = 0
  /-- A later region is above the earlier ones. -/
  ordered : space.regions.Pairwise fun r r' => r'.end ≤ r.start
  /-- They are between 4 GB and the end of the heap. -/
  within : ∀ r ∈ space.regions, 0x100000000 ≤ r.start ∧ r.start ≤ r.end ∧ r.end ≤ space.heapEnd
  /-- The heap ends at a page. -/
  page : space.heapEnd % pageSize = 0
  /-- It starts at 4 GB. -/
  low : 0x100000000 ≤ space.heapEnd
  /-- Each of its pages took a physical one. -/
  high : space.heapEnd ≤ 0x100000000 + marked * pageSize

/-- The invariant of the regions of all address spaces. -/
structure RegionsInv (s : Mm) : Prop where
  /-- The bitmap, and the address spaces. -/
  ok : SpacesOk s
  /-- The regions. -/
  spaces : ∀ a space, s.spaces a = some space → SpaceInv (markedPages s) space

variable {kmalloc : PageAllocator} {s s' : Mm} {a marked marked' : ℕ} {space : MemorySpace}

/-! ### One address space -/

namespace SpaceInv

/-- The end of the heap is in no region. -/
theorem conflict_none (h : SpaceInv marked space) : conflict space.regions space.heapEnd = none := by
  refine List.find?_eq_none.mpr fun r hr hc => ?_
  have hlt := (of_decide_eq_true hc).2
  have hle := (h.within r hr).2.2
  omega

theorem regionsOk (h : SpaceInv marked space) : RegionsOk space :=
  ⟨h.aligned, h.ordered.imp .inr, fun r hr => (h.within r hr).2, h.conflict_none⟩

theorem regionAddr_eq (h : SpaceInv marked space) : regionAddr space = space.heapEnd := by
  unfold regionAddr
  cases space.regions.length with
  | zero => rfl
  | succ n => rw [findAddr, h.conflict_none]

theorem mono (h : SpaceInv marked space) (hle : marked ≤ marked') : SpaceInv marked' space :=
  ⟨h.aligned, h.ordered, h.within, h.page, h.low,
    h.high.trans (Nat.add_le_add_left (Nat.mul_le_mul_right _ hle) _)⟩

/-- Taking regions out. -/
theorem sublist (h : SpaceInv marked space) {regions : List MemoryRegion}
    (hsub : regions.Sublist space.regions) : SpaceInv marked { space with regions := regions } :=
  ⟨fun r hr => h.aligned r (hsub.subset hr), h.ordered.sublist hsub,
    fun r hr => h.within r (hsub.subset hr), h.page, h.low, h.high⟩

/-- A new address space has no regions. -/
theorem empty (pml4 marked stack : ℕ) :
    SpaceInv marked ⟨pml4, [], 0x100000000, 0x100000000, stack, stack⟩ := by
  refine ⟨nofun, List.Pairwise.nil, nofun, ?_, ?_, ?_⟩
  · show 0x100000000 % 4096 = 0
    norm_num
  · exact le_rfl
  · exact Nat.le_add_right 0x100000000 _

/-- A region of some pages at the end of the heap. -/
theorem push (h : SpaceInv marked space) (n flags : ℕ) :
    SpaceInv (marked + n) { space with
      regions := ⟨space.heapEnd, space.heapEnd + n * pageSize, flags⟩ :: space.regions
      heapEnd := space.heapEnd + n * pageSize } := by
  have hpage : (space.heapEnd + n * pageSize) % pageSize = 0 := by
    rw [Nat.add_mul_mod_self_right, h.page]
  have hlow := h.low
  have hhigh := h.high
  refine ⟨fun r hr => ?_, List.pairwise_cons.mpr ⟨fun r hr => (h.within r hr).2.2, h.ordered⟩,
    fun r hr => ?_, hpage, by simp only; omega, by rw [Nat.add_mul]; simp only; omega⟩
  · rcases List.mem_cons.mp hr with rfl | hr
    · exact ⟨h.page, hpage⟩
    · exact h.aligned r hr
  · rcases List.mem_cons.mp hr with rfl | hr
    · exact ⟨hlow, Nat.le_add_right .., le_rfl⟩
    · obtain ⟨h₁, h₂, h₃⟩ := h.within r hr
      exact ⟨h₁, h₂, h₃.trans (Nat.le_add_right ..)⟩

end SpaceInv

/-- The pages of a rounded size. -/
theorem pageAlign_eq (size : ℕ) : pageAlign size = sizePages size * pageSize := by
  rw [sizePages, pageAlign, Nat.mul_div_cancel _ (by decide)]

/-- The end of a region of pages that there are is an address. -/
theorem SpaceInv.region_lt (h : SpaceInv marked space) {n : ℕ} (hn : marked + n ≤ 65536) :
    space.heapEnd + n * pageSize < 2 ^ 64 := by
  have hhigh := h.high
  rw [pageSize] at hhigh ⊢
  omega

/-! ### The calls -/

/-- `mm_alloc_region` does not find pages enough, or records a region at the end of the heap. -/
theorem mmAllocRegion_cases (kmalloc : PageAllocator) (h : RegionsInv s) (ha : s.spaces a = some space) (size flags : ℕ) :
    (freePages s < sizePages size ∧ (mmAllocRegion kmalloc s a space size flags).2 = 0 ∧
        (mmAllocRegion kmalloc s a space size flags).1.spaces = s.spaces ∧
          markedPages s ≤ markedPages (mmAllocRegion kmalloc s a space size flags).1) ∨
      (sizePages size ≤ freePages s ∧ ∃ t,
        allocPages kmalloc space.pml4 space.heapEnd flags (sizePages size) 0 s = (t, true) ∧
          mmAllocRegion kmalloc s a space size flags =
            (recordRegion kmalloc t a space space.heapEnd (pageAlign size) flags, space.heapEnd) ∧
          t.spaces = s.spaces ∧ markedPages t = markedPages s + sizePages size ∧
            markedPages s + sizePages size ≤ 65536) := by
  obtain ⟨hok, hspaces, hresult⟩ := allocPages_spec kmalloc space.pml4 space.heapEnd flags
    (sizePages size) 0 h.ok.pm
  unfold mmAllocRegion
  dsimp only
  rw [(h.spaces a space ha).regionAddr_eq]
  obtain ⟨⟨t, done⟩, hr⟩ : ∃ r, allocPages kmalloc space.pml4 space.heapEnd flags (sizePages size) 0
    s = r := ⟨_, rfl⟩
  rw [hr] at hok hspaces hresult ⊢
  dsimp only at hok hspaces hresult
  by_cases hle : sizePages size ≤ freePages s
  · rw [if_pos hle] at hresult
    obtain ⟨rfl, hmarked⟩ := hresult
    have htotal := markedPages_le t
    rw [hok.total, hmarked] at htotal
    exact .inr ⟨hle, t, rfl, rfl, hspaces.spaces, hmarked, htotal⟩
  · rw [if_neg hle] at hresult
    obtain ⟨rfl, hmarked⟩ := hresult
    exact .inl ⟨Nat.lt_of_not_le hle, rfl, hspaces.spaces, by rw [hmarked]; exact Nat.le_add_right ..⟩

/-- Where there are pages enough, the region is put at the end of the heap. -/
theorem mmAllocRegion_addr (kmalloc : PageAllocator) (h : RegionsInv s) (ha : s.spaces a = some space)
    {size : ℕ} (hsize : sizePages size + s.memoryUsedPages ≤ 65536) (flags : ℕ) :
    (mmAllocRegion kmalloc s a space size flags).2 = space.heapEnd := by
  rcases mmAllocRegion_cases kmalloc h ha size flags with ⟨hfew, -⟩ | ⟨-, t, -, heq, -⟩
  · rw [freePages, h.ok.pm.total, ← h.ok.pm.used] at hfew
    omega
  · rw [heq]

/-- The address space after a region was recorded. -/
theorem recordRegion_spaces (kmalloc : PageAllocator) (t : Mm) (a : ℕ) {space : MemorySpace}
    {marked size : ℕ} (h : SpaceInv marked space) (hsize : marked + sizePages size ≤ 65536)
    (flags : ℕ) :
    (recordRegion kmalloc t a space space.heapEnd (pageAlign size) flags).spaces =
      Function.update t.spaces a (some { space with
        regions := if kmalloc t.allocs sizeofMemoryRegion = 0 then []
          else ⟨space.heapEnd, space.heapEnd + sizePages size * pageSize, flags⟩ :: space.regions
        heapEnd := space.heapEnd + sizePages size * pageSize }) := by
  rw [recordRegion, pageAlign_eq, wrap_of_lt (h.region_lt hsize)]
  rfl

/-- The other address spaces are as they were. -/
theorem spaces_update {f : ℕ → Option MemorySpace} {new : Option MemorySpace}
    (hold : ∀ b sp, f b = some sp → SpaceInv marked sp) (hle : marked ≤ marked')
    (hnew : ∀ sp, new = some sp → SpaceInv marked' sp) :
    ∀ b sp, Function.update f a new b = some sp → SpaceInv marked' sp := by
  intro b sp hb
  by_cases hba : b = a
  · rw [hba, Function.update_self] at hb
    exact hnew sp hb
  · rw [Function.update_of_ne hba] at hb
    exact (hold b sp hb).mono hle

theorem mmAllocRegion_regions (h : RegionsInv s) (ha : s.spaces a = some space) (size flags : ℕ) :
    ∀ b sp, (mmAllocRegion kmalloc s a space size flags).1.spaces b = some sp →
      SpaceInv (markedPages (mmAllocRegion kmalloc s a space size flags).1) sp := by
  have hspace := h.spaces a space ha
  rcases mmAllocRegion_cases kmalloc h ha size flags with
    ⟨-, -, hspaces, hmarked⟩ | ⟨-, t, -, heq, hspaces, hmarked, htotal⟩
  · rw [hspaces]
    exact fun b sp hb => (h.spaces b sp hb).mono hmarked
  · rw [heq, recordRegion_marked, hmarked]
    dsimp only
    rw [recordRegion_spaces kmalloc t a hspace htotal, hspaces]
    refine spaces_update h.spaces (Nat.le_add_right ..) ?_
    rintro sp ⟨⟩
    have hpush := hspace.push (sizePages size) flags
    split_ifs
    · exact hpush.sublist (List.nil_sublist _)
    · exact hpush

theorem mmFreeRegion_regions (h : RegionsInv s) (ha : s.spaces a = some space) (addr size : ℕ) :
    ∀ b sp, (mmFreeRegion s a space addr size).spaces b = some sp → SpaceInv (markedPages s) sp := by
  unfold mmFreeRegion
  split
  · exact h.spaces
  · rw [(unmapPages_samePages ..).spaces]
    refine spaces_update h.spaces le_rfl ?_
    rintro sp ⟨⟩
    exact (h.spaces a space ha).sublist (List.eraseP_sublist ..)

/-- **A call keeps the regions in order.** -/
theorem mmStep_regions (h : RegionsInv s) {c : MmCall} (hs : mmStep kmalloc s c = some s') :
    RegionsInv s' := by
  refine ⟨(mmStep_account 0 h.ok hs).1, ?_⟩
  cases c with
  | create =>
    obtain rfl := Option.some.inj hs
    rcases mmCreateSpace_cases kmalloc s with ⟨t, ht | ht, hcreate⟩ | ⟨-, hcreate⟩
    · rw [hcreate, ht]
      exact h.spaces
    · rw [hcreate, ht]
      exact h.spaces
    · rw [hcreate]
      refine spaces_update (f := s.spaces) h.spaces le_rfl ?_
      rintro sp ⟨⟩
      exact .empty ..
  | on a call =>
    obtain ⟨space, ha, rfl⟩ := Option.map_eq_some_iff.mp hs
    cases call with
    | map virtAddr physAddr flags =>
      have hsame := mmMapPage_samePages kmalloc s space.pml4 virtAddr physAddr flags
      rw [spaceCall, hsame.spaces, hsame.markedPages]
      exact h.spaces
    | unmap virtAddr =>
      have hsame := mmUnmapPage_samePages s space.pml4 virtAddr
      rw [spaceCall, hsame.spaces, hsame.markedPages]
      exact h.spaces
    | alloc size flags => exact mmAllocRegion_regions h ha size flags
    | free addr size =>
      rw [spaceCall, mmFreeRegion_marked]
      exact mmFreeRegion_regions h ha addr size
  | destroy a =>
    obtain ⟨space, ha, rfl⟩ := Option.map_eq_some_iff.mp hs
    have hsame := unmapAll_samePages space.pml4 space.regions s
    rw [mmDestroySpace, show ∀ t : Mm, markedPages (t.setSpace a none) = markedPages t from
      fun _ => rfl, hsame.markedPages]
    refine spaces_update ?_ le_rfl nofun
    rw [hsame.spaces]
    exact h.spaces

theorem mmInit_regions {mem : ℕ → ℕ} {kernelHeapEnd : ℕ}
    (h : mmInit kmalloc mem kernelHeapEnd = some s) : RegionsInv s := by
  have hok := (mmInit_ok h).1
  refine ⟨hok, fun a space ha => ?_⟩
  have hnext : s.nextSpace = 0 := by
    unfold mmInit at h
    dsimp only at h
    split at h
    · cases h
    · obtain rfl := Option.some.inj h
      exact (initPageTables_samePages kmalloc (mmEmpty mem)).nextSpace
  have hlt := hok.bounded a space ha
  omega

/-- The invariant holds in the states that runs from `mm_init` reach. -/
theorem regionsInv_run {mem : ℕ → ℕ} {kernelHeapEnd : ℕ}
    (h : mmInit kmalloc mem kernelHeapEnd = some s) {calls : List MmCall}
    (hrun : run (mmStep kmalloc) s calls = some s') : RegionsInv s' :=
  (always_of_step (fun _ _ _ ht hs => mmStep_regions ht hs) (mmInit_regions h)).of_run hrun

end PrismaticOS.Kernel
