import PrismaticOS.Kernel.PageTrees
import PrismaticOS.Kernel.RegionCalls

/-!
# The pages of a region

What `mm_alloc_region` returns is to be backed: each of its pages by a physical page that was
free, and no two by the same. The size is rounded up to whole pages first, and from 2^64 - 4095
on the sum wraps to 0: the call maps nothing and returns the end of the heap.

## What is proved

* `region_pages_covered` — in every state that a run reaches: the region is backed if the size does
  not wrap, the tables from `kmalloc` are pages of their own and no page of the first 4 GB was
  mapped by hand; and it is not if the size wraps.
-/

namespace PrismaticOS.Kernel

open PrismaticOS.Library

/-! ### The condition -/

/-- The paths to the first 4 GB, where the tables are those of `init_page_tables`. -/
def BootPath (path : List (Fin 512)) : Prop := ∃ j : Fin 512, j.val < 4 ∧ path = [0, j]

/-- An address that is not under those. -/
def AboveBoot (virtAddr : ℕ) : Prop := pml4Index virtAddr ≠ 0 ∨ 4 ≤ pdptIndex virtAddr

/-- No page of the first 4 GB is mapped or unmapped. -/
def MapsAbove : MmCall → Prop
  | .on _ (.map virtAddr _ _) => AboveBoot virtAddr
  | .on _ (.unmap virtAddr) => AboveBoot virtAddr
  | _ => True

/-- The tables of all address spaces are a tree but for the first 4 GB, and the kernel's
entry 0 leads to one of them. -/
structure SpaceTrees (kmalloc : PageAllocator) (s : Mm) (path : ℕ → Option (List (Fin 512))) :
    Prop where
  /-- The tables. -/
  tree : TableTree BootPath kmalloc 0 s path
  /-- The tables of the fourth level. -/
  roots : ∀ a pml4, pml4Of s a = some pml4 → path pml4 = some []
  /-- The kernel's table of the third level. -/
  kernelSlot : path (tableOf (s.kernelPml4 0)) = some [0]
  /-- The entry for it. -/
  kernelGood : (pageRadix BootPath).good (s.kernelPml4 0)
  /-- The kernel has no other entries. -/
  kernelRest : ∀ i, i ≠ 0 → s.kernelPml4 i = 0

/-- The tables are a tree, while `kmalloc` has made fewer than `hi` of them. -/
def TreesTo (kmalloc : PageAllocator) (hi : ℕ) (s : Mm) : Prop :=
  s.allocs ≤ hi → ∃ path, SpaceTrees kmalloc s path

variable {kmalloc : PageAllocator} {hi a virtAddr pml4 : ℕ} {s s' t : Mm} {space : MemorySpace}
  {path : ℕ → Option (List (Fin 512))}

theorem AboveBoot.visible (h : AboveBoot virtAddr) : Visible BootPath virtAddr := by
  rintro q hq ⟨j, hj, rfl⟩
  obtain ⟨h₀, hq⟩ := List.cons_prefix_cons.mp hq
  obtain ⟨h₁, -⟩ := List.cons_prefix_cons.mp hq
  have hpml4 : 0 = pml4Index virtAddr := congrArg Fin.val h₀
  have hpdpt : j.val = pdptIndex virtAddr := congrArg Fin.val h₁
  rcases h with h | h
  · exact h hpml4.symm
  · omega

/-- The addresses that regions get are above the first 4 GB. -/
theorem aboveBoot_heap (hlow : 0x100000000 ≤ virtAddr) (hhigh : virtAddr < 0x200000000) :
    AboveBoot virtAddr := by
  right
  rw [pdptIndex]
  omega

/-! ### What keeps the trees -/

/-- The tables that are there keep their labels. -/
theorem SpaceTrees.step (h : SpaceTrees kmalloc s path) {path' : ℕ → Option (List (Fin 512))}
    (htree : TableTree BootPath kmalloc 0 s' path') (hlabels : ∀ t p, path t = some p → path' t = some p)
    (hpml4 : ∀ b, pml4Of s' b = pml4Of s b) (hkernel : s'.kernelPml4 = s.kernelPml4) :
    SpaceTrees kmalloc s' path' where
  tree := htree
  roots a pml4 hp := hlabels pml4 _ (h.roots a pml4 ((hpml4 a).symm.trans hp))
  kernelSlot := hkernel ▸ hlabels _ _ h.kernelSlot
  kernelGood := hkernel ▸ h.kernelGood
  kernelRest := hkernel ▸ h.kernelRest

/-- What changes no table keeps the trees. -/
theorem SpaceTrees.same (h : SpaceTrees kmalloc s path) (hsame : SameTables s s') :
    SpaceTrees kmalloc s' path :=
  h.step (h.tree.same s' hsame.mem hsame.allocs) (fun _ _ => id) hsame.pml4 hsame.kernelPml4

theorem mmMapPage_kernel (kmalloc : PageAllocator) (s : Mm) (pml4 virtAddr physAddr flags : ℕ) :
    (mmMapPage kmalloc s pml4 virtAddr physAddr flags).kernelPml4 = s.kernelPml4 := by
  have hlevel : ∀ s t i, (ensureTable kmalloc s t i).1.kernelPml4 = s.kernelPml4 := by
    intro s t i
    rcases ensureTable_cases kmalloc s t i with ⟨-, heq⟩ | ⟨-, heq⟩
    · rw [heq]
    · rw [heq]
      rfl
  obtain ⟨r₁, r₂, r₃, h₁, h₂, h₃, hmap⟩ := mmMapPage_eq kmalloc s pml4 virtAddr physAddr flags
  rw [hmap, Mm.store, h₃, hlevel, h₂, hlevel, h₁, hlevel]

/-- **What calls do to pages above the first 4 GB** keeps the trees. -/
theorem treesTo_steps (hf : FreshFrames kmalloc 0 hi) (a pml4 : ℕ) :
    TableSteps kmalloc pml4 AboveBoot
      fun s => pml4Of s a = some pml4 ∧ TreesTo kmalloc hi s where
  same s s' hsame := by
    rintro ⟨hp, htrees⟩
    refine ⟨(hsame.pml4 a).trans hp, fun hhi => ?_⟩
    obtain ⟨path, htrees⟩ := htrees (hsame.allocs.trans hhi)
    exact ⟨path, htrees.same hsame⟩
  map s virtAddr physAddr flags hv := by
    rintro ⟨hp, htrees⟩
    have hpml4 := (mmMapPage_samePages kmalloc s pml4 virtAddr physAddr flags).pml4Of
    refine ⟨(hpml4 a).trans hp, fun hhi => ?_⟩
    obtain ⟨path, htrees⟩ := htrees ((mmMapPage_allocs ..).1.trans hhi)
    obtain ⟨path', htree, hlabels, -⟩ :=
      mmMapPage_tree htrees.tree hf physAddr flags hhi (htrees.roots a pml4 hp) hv.visible
    exact ⟨path', htrees.step htree hlabels hpml4 (mmMapPage_kernel ..)⟩
  unmap s virtAddr hv := by
    rintro ⟨hp, htrees⟩
    have hpml4 := (mmUnmapPage_samePages s pml4 virtAddr).pml4Of
    have hkernel : (mmUnmapPage s pml4 virtAddr).kernelPml4 = s.kernelPml4 := by
      rcases mmUnmapPage_cases s pml4 virtAddr with ⟨-, heq⟩ | ⟨pt, -, heq⟩
      · rw [heq]
      · rw [heq, Mm.store]
    refine ⟨(hpml4 a).trans hp, fun hhi => ?_⟩
    rw [mmUnmapPage_allocs] at hhi
    obtain ⟨path, htrees⟩ := htrees hhi
    obtain ⟨htree, -⟩ := mmUnmapPage_tree htrees.tree hf hhi (htrees.roots a pml4 hp) hv.visible
    exact ⟨path, htrees.step htree (fun _ _ => id) hpml4 hkernel⟩

/-! ### Address spaces that come and go -/

/-- A table of the fourth level is made. -/
theorem addSpace_trees (h : SpaceTrees kmalloc s path) (hf : FreshFrames kmalloc 0 hi) {n : ℕ}
    (hn : n < s.allocs) (hhi : s.allocs ≤ hi) (hfresh : path (kmalloc n pageSize) = none) :
    ∃ path', SpaceTrees kmalloc (addSpace s (kmalloc n pageSize)) path' := by
  have hpage := hf.aligned n (Nat.zero_le n) (hn.trans_le hhi)
  have hmade : ∃ m, 0 ≤ m ∧ m < s.allocs ∧ kmalloc n pageSize = kmalloc m pageSize :=
    ⟨n, Nat.zero_le n, hn, rfl⟩
  obtain ⟨x, hx⟩ : ∃ x, kmalloc n pageSize = x := ⟨_, rfl⟩
  rw [hx] at hpage hfresh hmade ⊢
  have hother : ∀ t p (i : Fin 512), path t = some p →
      tableWord (addSpace s x).mem t i = tableWord s.mem t i := by
    intro t p i ht
    exact entry_addSpace_of_ne hpage (h.tree.aligned hf hhi ht) i.isLt (ne_of_fresh hfresh ht)
  -- entry 0 is the kernel's, and there are no others
  have hroot : ∀ i u, (pageRadix BootPath).inner [i] →
      (pageRadix BootPath).next (tableWord (addSpace s x).mem x i) = some u →
        path u = some [i] ∧ (pageRadix BootPath).good (tableWord (addSpace s x).mem x i) := by
    intro i u _ hu
    have hword : tableWord (addSpace s x).mem x i = if i.val < 256 then s.kernelPml4 i else 0 :=
      entry_addSpace_self x i.isLt
    by_cases hi0 : i = 0
    · have hslot : tableWord (addSpace s x).mem x i = s.kernelPml4 0 := by
        rw [hword, hi0]
        rfl
      rw [hslot] at hu ⊢
      rw [hi0, ← tableOf_of_next BootPath hu]
      exact ⟨h.kernelSlot, h.kernelGood⟩
    · rw [hword, h.kernelRest i fun he => hi0 (Fin.ext he), ite_self] at hu
      cases hu
  refine ⟨Function.update path x (some []), ⟨fun t p ht => ?_, h.tree.labelled.addTable hfresh hother hroot⟩,
    fun b p hb => ?_, update_fresh hfresh h.kernelSlot, h.kernelGood, h.kernelRest⟩
  · rcases update_some_cases ht with ⟨rfl, -⟩ | ⟨-, ht⟩
    · exact hmade
    · exact h.tree.made t p ht
  · by_cases hb' : b = s.nextSpace
    · rw [hb', pml4Of, Mm.addSpace_self, Option.map_some] at hb
      rw [← Option.some.inj hb, Function.update_self]
    · rw [pml4Of, Mm.addSpace_of_ne _ hb'] at hb
      exact update_fresh hfresh (h.roots b p hb)

theorem mmCreateSpace_trees (h : TreesTo kmalloc hi s) (hf : FreshFrames kmalloc 0 hi) :
    TreesTo kmalloc hi (mmCreateSpace kmalloc s).1 := by
  have htwice := (tick_same s).trans (tick_same s.tick)
  rcases mmCreateSpace_cases kmalloc s with ⟨t, rfl | rfl, heq⟩ | ⟨-, heq⟩
  · rw [heq]
    intro hhi
    obtain ⟨path, h⟩ := h ((Nat.le_succ _).trans hhi)
    exact ⟨path, h.same (tick_same s)⟩
  · rw [heq]
    intro hhi
    obtain ⟨path, h⟩ := h (htwice.allocs.trans hhi)
    exact ⟨path, h.same htwice⟩
  · rw [heq]
    intro hhi
    have hallocs : s.tick.tick.allocs ≤ hi := hhi
    obtain ⟨path, h⟩ := h (htwice.allocs.trans hhi)
    have hfresh := h.tree.fresh hf (Nat.zero_le _) (Nat.le_succ s.allocs) hallocs
    exact addSpace_trees (h.same htwice) hf (Nat.lt_succ_self _) hallocs hfresh

theorem mmDestroySpace_trees (hf : FreshFrames kmalloc 0 hi) (h : TreesTo kmalloc hi s)
    (ha : s.spaces a = some space)
    (hpages : ∀ r ∈ space.regions, EachPage AboveBoot r.start r.pages) :
    TreesTo kmalloc hi (mmDestroySpace s a space) := by
  have hp := pml4Of_some ha
  obtain ⟨-, hunmapped⟩ := (treesTo_steps hf a space.pml4).unmapAll hpages ⟨hp, h⟩
  intro hhi
  obtain ⟨path, htrees⟩ := hunmapped hhi
  refine ⟨path, htrees.tree.same _ rfl le_rfl, fun b p hb => ?_, htrees.kernelSlot, htrees.kernelGood,
    htrees.kernelRest⟩
  by_cases hba : b = a
  · rw [hba, pml4Of, mmDestroySpace, Mm.setSpace_self] at hb
    cases hb
  · rw [pml4Of, mmDestroySpace, Mm.setSpace_of_ne _ _ hba] at hb
    exact htrees.roots b p hb

/-! ### Runs -/

/-- The pages of a region are above the first 4 GB. -/
theorem SpaceInv.region_above {marked : ℕ} (h : SpaceInv marked space) (hmarked : marked ≤ 65536)
    {r : MemoryRegion} (hr : r ∈ space.regions) : EachPage AboveBoot r.start r.pages := by
  intro k hk
  obtain ⟨hlow, hle, hend⟩ := h.within r hr
  obtain ⟨hstart, hpage⟩ := h.aligned r hr
  have hhigh := h.high
  rw [MemoryRegion.pages, pageSize] at hk
  rw [pageSize] at hstart hpage hhigh ⊢
  have hlt : r.start + k * 4096 < 0x200000000 := by omega
  rw [wrap_of_lt (by omega)]
  exact aboveBoot_heap (by omega) hlt

/-- So are those of the next one, as far as there are pages for it. -/
theorem SpaceInv.next_above {marked : ℕ} (h : SpaceInv marked space) {n : ℕ}
    (hn : marked + n ≤ 65536) : EachPage AboveBoot space.heapEnd n := by
  intro k hk
  have hlow := h.low
  have hhigh := h.high
  rw [pageSize] at hhigh ⊢
  have hlt : space.heapEnd + k * 4096 < 0x200000000 := by omega
  rw [wrap_of_lt (by omega)]
  exact aboveBoot_heap (by omega) hlt

/-- **A call keeps the trees**, if no page of the first 4 GB is mapped by hand. -/
theorem mmStep_trees (hf : FreshFrames kmalloc 0 hi) (hregions : RegionsInv s)
    (h : TreesTo kmalloc hi s) {c : MmCall} (hc : MapsAbove c)
    (hs : mmStep kmalloc s c = some s') : TreesTo kmalloc hi s' := by
  have hmarked := markedPages_le s
  rw [hregions.ok.pm.total] at hmarked
  cases c with
  | create =>
    obtain rfl := Option.some.inj hs
    exact mmCreateSpace_trees h hf
  | on a call =>
    obtain ⟨space, ha, rfl⟩ := Option.map_eq_some_iff.mp hs
    have hspace := hregions.spaces a space ha
    have hp := pml4Of_some ha
    refine ((treesTo_steps hf a space.pml4).spaceCall ha ?_ ⟨hp, h⟩).2
    cases call with
    | map => exact hc
    | unmap => exact hc
    | alloc size flags =>
      have hfree : freePages s = 65536 - markedPages s := by rw [freePages, hregions.ok.pm.total]
      show EachPage AboveBoot (regionAddr space) _
      rw [hspace.regionAddr_eq]
      exact hspace.next_above (by omega)
    | free addr size => exact fun r hr => hspace.region_above hmarked (List.mem_of_find?_eq_some hr)
  | destroy a =>
    obtain ⟨space, ha, rfl⟩ := Option.map_eq_some_iff.mp hs
    exact mmDestroySpace_trees hf h ha fun r hr =>
      (hregions.spaces a space ha).region_above hmarked hr

theorem mmInit_trees (hf : FreshFrames kmalloc 0 hi) {mem : ℕ → ℕ} {kernelHeapEnd : ℕ}
    (h : mmInit kmalloc mem kernelHeapEnd = some s) : TreesTo kmalloc hi s := by
  intro hhi
  have hallocs : (initPageTables kmalloc (mmEmpty mem)).allocs = 5 := rfl
  obtain ⟨t, ht⟩ : ∃ t, initPageTables kmalloc (mmEmpty mem) = t := ⟨_, rfl⟩
  unfold mmInit at h
  dsimp only at h
  rw [ht] at h hallocs
  split at h
  · cases h
  obtain rfl := Option.some.inj h
  have hsix : t.allocs + 1 ≤ hi := hhi
  have hlt : ∀ n < 5, n < hi := fun n hn => by omega
  have hinit := initPageTables_ok (fun n hn => hf.aligned n (Nat.zero_le n) (hlt n hn))
    (fun n hn hpos heq => Nat.ne_of_lt hpos
      (hf.apart 0 n le_rfl (hlt 0 (by decide)) (Nat.zero_le n) (hlt n hn) heq)) mem
  rw [ht] at hinit
  have hpage : kernelPdpt kmalloc % pageSize = 0 := hf.aligned 0 le_rfl (hlt 0 (by decide))
  have hphys : kernelPdpt kmalloc < 2 ^ 52 := hf.phys 0 le_rfl (hlt 0 (by decide))
  have hkernel : t.kernelPml4 0 = kernelPdpt kmalloc ||| ptePresent ||| pteWrite := by
    rw [hinit.kernelPml4, Function.update_self]
  -- the table of the third level has no other entries than those for the first 4 GB
  have hdown : ∀ i u, (pageRadix BootPath).inner ([0] ++ [i]) →
      (pageRadix BootPath).next (tableWord t.mem (kernelPdpt kmalloc) i) = some u →
        none = some ([0] ++ [i]) ∧
          (pageRadix BootPath).good (tableWord t.mem (kernelPdpt kmalloc) i) := by
    intro i u hin hu
    have hi4 : 4 ≤ i.val := Nat.le_of_not_lt fun hlt => hin.2 [0, i] List.prefix_rfl ⟨i, hlt, rfl⟩
    rw [tableWord, hinit.free i hi4 i.isLt] at hu
    cases hu
  refine ⟨Function.update (fun _ => none) (kernelPdpt kmalloc) (some [0]), ⟨fun u p hu => ?_,
    (Radix.labelled_none _ (tableWord t.mem)).addTable rfl (fun _ _ _ ht => by cases ht) hdown⟩,
    fun a p hp => ?_, ?_, ?_, fun i hi0 => ?_⟩
  · rcases update_some_cases hu with ⟨hself, -⟩ | ⟨-, hu⟩
    · exact ⟨0, le_rfl, Nat.succ_pos _, hself⟩
    · cases hu
  · have hnone : pml4Of t a = none := by rw [pml4Of, hinit.spaces, Option.map_none]
    cases hnone.symm.trans hp
  · show Function.update _ _ _ (tableOf (t.kernelPml4 0)) = _
    rw [hkernel, tableOf_kernelEntry hpage, Function.update_self]
  · show t.kernelPml4 0 &&& pteWrite ≠ 0 ∧ t.kernelPml4 0 &&& pteNx = 0
    rw [hkernel, tableEntry_eq hpage, and_flags _ (by decide) (by decide), and_nx]
    exact ⟨by decide, by omega⟩
  · show t.kernelPml4 i = 0
    rw [hinit.kernelPml4, Function.update_of_ne hi0]

/-- **The trees of a run** from `mm_init`. -/
theorem trees_run (hf : FreshFrames kmalloc 0 hi) {mem : ℕ → ℕ} {kernelHeapEnd : ℕ}
    (hinit : mmInit kmalloc mem kernelHeapEnd = some s) {calls : List MmCall}
    (hcalls : ∀ c ∈ calls, MapsAbove c) (hrun : run (mmStep kmalloc) s calls = some s') :
    TreesTo kmalloc hi s' := by
  have hstart : RegionsInv s ∧ TreesTo kmalloc hi s :=
    ⟨mmInit_regions hinit, mmInit_trees hf hinit⟩
  clear hinit
  induction calls generalizing s with
  | nil => exact Option.some.inj hrun ▸ hstart.2
  | cons c calls ih =>
    obtain ⟨t, ht, hrun⟩ := Option.bind_eq_some_iff.mp hrun
    obtain ⟨hregions, htrees⟩ := hstart
    exact ih (fun c hc => hcalls c (List.mem_cons_of_mem _ hc)) hrun
      ⟨mmStep_regions hregions ht, mmStep_trees hf hregions htrees (hcalls c List.mem_cons_self) ht⟩

/-! ### The loop -/

/-- Pages of addresses below 2^48 are told apart by the walk. -/
theorem page_ne {addr j k n : ℕ} (haddr : addr % pageSize = 0) (hend : addr + n * pageSize ≤ 2 ^ 48)
    (hj : j < n) (hk : k < n) (hne : j ≠ k) :
    (addr + j * pageSize) / pageSize % 2 ^ 36 ≠ (addr + k * pageSize) / pageSize % 2 ^ 36 := by
  rw [pageSize] at *
  omega

/-- The pages of a region from `done` on have entries for physical pages that were free, no two
for the same. -/
structure PagesBacked (s t : Mm) (pml4 addr flags done n : ℕ) (pages : ℕ → ℕ) : Prop where
  /-- The physical pages were free. -/
  free : ∀ k, done ≤ k → k < n → pages k < s.memoryTotalPages ∧ s.memoryBitmap (pages k) = false
  /-- No two are the same. -/
  apart : ∀ j k, done ≤ j → j < n → done ≤ k → k < n → pages j = pages k → j = k
  /-- The entries are for them. -/
  entries : ∀ k, done ≤ k → k < n → leafEntry t.mem pml4 (addr + k * pageSize) =
    pageEntry (s.memoryBase + pages k * pageSize) flags

/-- A page more. -/
theorem PagesBacked.step {u : Mm} {addr flags done n j : ℕ} {pages : ℕ → ℕ}
    (h : PagesBacked u t pml4 addr flags (done + 1) n pages) (hj : j < s.memoryTotalPages)
    (hb : s.memoryBitmap j = false) (hu : SamePages u (s.markPage j))
    (hentry : leafEntry t.mem pml4 (addr + done * pageSize) =
      pageEntry (s.memoryBase + j * pageSize) flags) :
    PagesBacked s t pml4 addr flags done n (Function.update pages done j) := by
  have hbitmap : u.memoryBitmap = Function.update s.memoryBitmap j true := by
    rw [hu.memoryBitmap, Mm.markPage_bitmap]
  have htotal : u.memoryTotalPages = s.memoryTotalPages := hu.memoryTotalPages
  have hbase : u.memoryBase = s.memoryBase := hu.memoryBase
  -- the pages that come later are not the one that was taken
  have hlater : ∀ k, done ≤ k → k < n → k ≠ done → pages k ≠ j ∧ pages k < s.memoryTotalPages ∧
      s.memoryBitmap (pages k) = false := by
    intro k hk hk' hne
    obtain ⟨hlt, hfree⟩ := h.free k (by omega) hk'
    have hpage : pages k ≠ j := by
      intro he
      rw [hbitmap, he, Function.update_self] at hfree
      cases hfree
    rw [hbitmap, Function.update_of_ne hpage] at hfree
    exact ⟨hpage, htotal ▸ hlt, hfree⟩
  refine ⟨fun k hk hk' => ?_, fun k l hk hk' hl hl' heq => ?_, fun k hk hk' => ?_⟩
  · by_cases hself : k = done
    · rw [hself, Function.update_self]
      exact ⟨hj, hb⟩
    · rw [Function.update_of_ne hself]
      exact (hlater k hk hk' hself).2
  · by_cases hself : k = done <;> by_cases hself' : l = done
    · rw [hself, hself']
    · rw [hself, Function.update_self, Function.update_of_ne hself'] at heq
      exact absurd heq.symm (hlater l hl hl' hself').1
    · rw [hself', Function.update_self, Function.update_of_ne hself] at heq
      exact absurd heq (hlater k hk hk' hself).1
    · rw [Function.update_of_ne hself, Function.update_of_ne hself'] at heq
      exact h.apart k l (by omega) hk' (by omega) hl' heq
  · by_cases hself : k = done
    · rw [hself, Function.update_self, hentry]
    · rw [Function.update_of_ne hself, h.entries k (by omega) hk', hbase]

/-- **The loop of `mm_alloc_region`** backs each page. -/
theorem allocPages_backed (hf : FreshFrames kmalloc 0 hi) {addr flags n : ℕ}
    (haddr : addr % pageSize = 0) (hend : addr + n * pageSize ≤ 2 ^ 48)
    (hvis : ∀ k < n, AboveBoot (addr + k * pageSize)) (left done : ℕ) (hn : done + left = n)
    (h : TableTree BootPath kmalloc 0 s path) (hp : path pml4 = some []) (hpm : PmRange s)
    (hallocs : s.allocs + 3 * left ≤ hi)
    (hloop : allocPages kmalloc pml4 addr flags left done s = (t, true)) :
    ∃ path' pages, TableTree BootPath kmalloc 0 t path' ∧ path' pml4 = some [] ∧
      PagesBacked s t pml4 addr flags done n pages ∧ ∀ k < done,
        leafEntry t.mem pml4 (addr + k * pageSize) = leafEntry s.mem pml4 (addr + k * pageSize) := by
  induction left generalizing done s path with
  | zero =>
    obtain rfl : s = t := congrArg Prod.fst hloop
    refine ⟨path, fun _ => 0, h, hp, ⟨fun k hk hk' => ?_, fun j k hj hj' => ?_, fun k hk hk' => ?_⟩,
      fun _ _ => rfl⟩ <;> omega
  | succ left ih =>
    rw [allocPages] at hloop
    rcases pmAllocPage_eq hpm with ⟨-, heq⟩ | ⟨j, hj, hb, heq⟩
    · rw [heq] at hloop
      simp at hloop
    have hpos := hpm.base_pos
    have hphys : s.memoryBase + j * pageSize ≠ 0 := by omega
    have hdone : done < n := by omega
    have hlast : addr + done * pageSize < 2 ^ 64 := by
      have hle : done * pageSize ≤ n * pageSize := Nat.mul_le_mul_right _ hdone.le
      omega
    rw [heq] at hloop
    simp only [if_neg hphys] at hloop
    rw [wrap_of_lt hlast] at hloop
    have hbound := (mmMapPage_allocs kmalloc (s.markPage j) pml4 (addr + done * pageSize)
      (s.memoryBase + j * pageSize) flags).2
    have hsame := mmMapPage_samePages kmalloc (s.markPage j) pml4 (addr + done * pageSize)
      (s.memoryBase + j * pageSize) flags
    have hmarked : (s.markPage j).allocs = s.allocs := rfl
    obtain ⟨path₁, htree₁, hlabels, hentries⟩ := mmMapPage_tree
      (h.same (s.markPage j) rfl le_rfl) hf (s.memoryBase + j * pageSize) flags (by omega) hp
      (hvis done hdone).visible
    obtain ⟨u, hu⟩ : ∃ u, mmMapPage kmalloc (s.markPage j) pml4 (addr + done * pageSize)
      (s.memoryBase + j * pageSize) flags = u := ⟨_, rfl⟩
    rw [hu] at hloop hbound hsame htree₁ hentries
    obtain ⟨path', pages, htree, hlabel, hbacked, hkept⟩ := ih (done + 1) (by omega) htree₁
      (hlabels _ _ hp) ((hpm.markPage j).same hsame) (by omega) hloop
    refine ⟨path', Function.update pages done j, htree, hlabel, hbacked.step hj hb hsame ?_,
      fun k hk => ?_⟩
    · rw [hkept done (Nat.lt_succ_self _), hentries _ (hvis done hdone).visible, if_pos rfl]
    · rw [hkept k (Nat.lt_succ_of_lt hk), hentries _ (hvis k (hk.trans hdone)).visible,
        if_neg (page_ne haddr hend (hk.trans hdone) hdone (Nat.ne_of_lt hk))]
      rfl

/-! ### What an allocation gives -/

/-- **The region is backed**: each of its addresses, and so each page with one, is in a physical
page that was free, and is allowed what was asked for; no two pages are in the same. -/
def Covered (kmalloc : PageAllocator) (s : Mm) (a : ℕ) (space : MemorySpace) (size flags : ℕ) :
    Prop :=
  let s' := (mmAllocRegion kmalloc s a space size flags).1
  let p := (mmAllocRegion kmalloc s a space size flags).2
  (∀ x, p ≤ x → x < p + size → ∃ tr i, translateIn s' a x = some tr ∧ i < s.memoryTotalPages ∧
    s.memoryBitmap i = false ∧ tr.frame * pageSize = s.memoryBase + i * pageSize ∧
      tr.write = (flags &&& memWrite != 0) ∧ tr.noExec = (flags &&& memExec == 0)) ∧
  ∀ x y, p ≤ x → x < p + size → p ≤ y → y < p + size → x / pageSize ≠ y / pageSize →
    (translateIn s' a x).map Translation.frame ≠ (translateIn s' a y).map Translation.frame

/-- The walk does not see the bits from bit 48 on. -/
theorem translate_alias (mem : ℕ → ℕ) (pml4 virtAddr : ℕ) :
    translate mem pml4 (virtAddr + 2 ^ 48) = translate mem pml4 virtAddr := by
  have h₄ : pml4Index (virtAddr + 2 ^ 48) = pml4Index virtAddr := by
    rw [pml4Index, pml4Index]
    omega
  have h₃ : pdptIndex (virtAddr + 2 ^ 48) = pdptIndex virtAddr := by
    rw [pdptIndex, pdptIndex]
    omega
  have h₂ : pdIndex (virtAddr + 2 ^ 48) = pdIndex virtAddr := by
    rw [pdIndex, pdIndex]
    omega
  have h₁ : ptIndex (virtAddr + 2 ^ 48) = ptIndex virtAddr := by
    rw [ptIndex, ptIndex]
    omega
  rw [translate, translate, walkEntries, walkEntries, h₄, h₃, h₂, h₁]

/-- A region of more than 2^48 bytes is never backed: two of its pages are one to the walk. -/
theorem Covered.size_le {size flags : ℕ} (h : Covered kmalloc s a space size flags) :
    size ≤ 2 ^ 48 := by
  by_contra hsize
  obtain ⟨p, hp⟩ : ∃ p, (mmAllocRegion kmalloc s a space size flags).2 = p := ⟨_, rfl⟩
  obtain ⟨-, h⟩ := h
  rw [hp] at h
  refine h (p + 2 ^ 48) p (by omega) (by omega) le_rfl (by omega) ?_ ?_
  · rw [pageSize]
    omega
  · rw [translateIn_eq, translateIn_eq]
    simp only [translate_alias]

/-- What the address of a backed page is. -/
theorem PagesBacked.translate {addr flags n : ℕ} {pages : ℕ → ℕ}
    (h : PagesBacked s t pml4 addr flags 0 n pages) (hpm : PmOk s)
    (htree : TableTree BootPath kmalloc 0 t path) (hp : path pml4 = some []) {k : ℕ} (hk : k < n)
    (hvis : AboveBoot (addr + k * pageSize)) :
    (translate t.mem pml4 (addr + k * pageSize)).map Translation.mapping =
      some ⟨(s.memoryBase + pages k * pageSize) / pageSize, flags &&& memWrite != 0,
        flags &&& memExec == 0⟩ := by
  obtain ⟨hlt, -⟩ := h.free k (Nat.zero_le k) hk
  rw [hpm.total] at hlt
  rw [translate_mapping htree hp hvis.visible, h.entries k (Nat.zero_le k) hk, hpm.base]
  refine entryMapping_pageEntry ?_ ?_ flags
  · rw [pageSize]
    omega
  · rw [pageSize]
    omega

/-- The page of an address of the region. -/
theorem region_page {addr size x : ℕ} (haddr : addr % pageSize = 0) (hsize : size ≤ 2 ^ 64 - pageSize)
    (hx : addr ≤ x) (hx' : x < addr + size) :
    ∃ k < sizePages size, x / 2 ^ 12 = (addr + k * pageSize) / 2 ^ 12 := by
  refine ⟨(x - addr) / pageSize, ?_, ?_⟩
  · rw [sizePages, pageAlign, wrap_of_lt (by rw [pageSize] at *; omega)]
    rw [pageSize] at *
    omega
  · rw [pageSize] at *
    omega

/-- What an address of a new region is: the page that was taken for its place. -/
theorem region_translates {size flags : ℕ} (hregions : RegionsInv s)
    (hf : FreshFrames kmalloc 0 (s.allocs + 3 * sizePages size))
    (htrees : SpaceTrees kmalloc s path) (ha : s.spaces a = some space)
    (hsize : size ≤ 2 ^ 64 - pageSize) (hp : (mmAllocRegion kmalloc s a space size flags).2 ≠ 0) :
    (mmAllocRegion kmalloc s a space size flags).2 = space.heapEnd ∧
      ∃ t pages, PagesBacked s t space.pml4 space.heapEnd flags 0 (sizePages size) pages ∧
        ∀ x, space.heapEnd ≤ x → x < space.heapEnd + size →
          ∃ k < sizePages size, x / pageSize = (space.heapEnd + k * pageSize) / pageSize ∧
            ∃ tr, translateIn (mmAllocRegion kmalloc s a space size flags).1 a x = some tr ∧
              tr.mapping = ⟨(s.memoryBase + pages k * pageSize) / pageSize, flags &&& memWrite != 0,
                flags &&& memExec == 0⟩ := by
  have hspace := hregions.spaces a space ha
  rcases mmAllocRegion_cases kmalloc hregions ha size flags with
    ⟨-, hnull, -⟩ | ⟨-, t, hloop, heq, -, -, htotal⟩
  · exact absurd hnull hp
  have hroot := htrees.roots a space.pml4 (pml4Of_some ha)
  have habove : ∀ k < sizePages size, AboveBoot (space.heapEnd + k * pageSize) := by
    intro k hk
    have hk' := hspace.next_above htotal k hk
    have hlt := hspace.region_lt htotal
    rwa [wrap_of_lt (lt_of_le_of_lt
      (Nat.add_le_add_left (Nat.mul_le_mul_right _ hk.le) _) hlt)] at hk'
  have hend : space.heapEnd + sizePages size * pageSize ≤ 2 ^ 48 := by
    have hhigh := hspace.high
    rw [pageSize] at hhigh ⊢
    omega
  obtain ⟨path', pages, htree, hlabel, hbacked, -⟩ := allocPages_backed hf hspace.page hend habove
    (sizePages size) 0 (Nat.zero_add _) htrees.tree hroot hregions.ok.pm.range le_rfl hloop
  refine ⟨by rw [heq], t, pages, hbacked, fun x hx hx' => ?_⟩
  obtain ⟨k, hk, hpage⟩ := region_page hspace.page hsize hx hx'
  refine ⟨k, hk, hpage, ?_⟩
  have hmap := hbacked.translate hregions.ok.pm htree hlabel hk (habove k hk)
  rw [← translate_page hpage] at hmap
  have hin : translateIn (mmAllocRegion kmalloc s a space size flags).1 a x =
      translate t.mem space.pml4 x := by
    rw [heq, translateIn, recordRegion_spaces kmalloc t a hspace htotal, Function.update_self,
      Option.bind_some]
    rfl
  rw [hin]
  exact Option.map_eq_some_iff.mp hmap

/-- **A size that does not wrap is backed**, with tables that are pages of their own. -/
theorem region_covered {size flags : ℕ} (hregions : RegionsInv s)
    (hf : FreshFrames kmalloc 0 (s.allocs + 3 * sizePages size))
    (htrees : SpaceTrees kmalloc s path) (ha : s.spaces a = some space)
    (hsize : size ≤ 2 ^ 64 - pageSize) (hp : (mmAllocRegion kmalloc s a space size flags).2 ≠ 0) :
    Covered kmalloc s a space size flags := by
  obtain ⟨haddr, t, pages, hbacked, htranslate⟩ := region_translates hregions hf htrees ha hsize hp
  have hbase : s.memoryBase = 256 * pageSize := hregions.ok.pm.base
  unfold Covered
  rw [haddr]
  refine ⟨fun x hx hx' => ?_, fun x y hx hx' hy hy' hne hframes => ?_⟩
  · obtain ⟨k, hk, -, tr, htr, hmapping⟩ := htranslate x hx hx'
    obtain ⟨hlt, hfree⟩ := hbacked.free k (Nat.zero_le k) hk
    refine ⟨tr, pages k, htr, hlt, hfree, ?_, congrArg Mapping.write hmapping,
      congrArg Mapping.noExec hmapping⟩
    rw [show tr.frame = (s.memoryBase + pages k * pageSize) / pageSize from
      congrArg Mapping.frame hmapping, hbase, ← Nat.add_mul, Nat.mul_div_cancel _ (by decide)]
  · obtain ⟨j, hj, hpage, tr, htr, hmapping⟩ := htranslate x hx hx'
    obtain ⟨k, hk, hpage', tr', htr', hmapping'⟩ := htranslate y hy hy'
    rw [htr, htr', Option.map_some, Option.map_some, Option.some.injEq,
      show tr.frame = _ from congrArg Mapping.frame hmapping,
      show tr'.frame = _ from congrArg Mapping.frame hmapping', hbase, ← Nat.add_mul, ← Nat.add_mul,
      Nat.mul_div_cancel _ (by decide), Nat.mul_div_cancel _ (by decide), Nat.add_left_cancel_iff] at hframes
    obtain rfl := hbacked.apart j k (Nat.zero_le j) hj (Nat.zero_le k) hk hframes
    exact hne (hpage.trans hpage'.symm)

/-- An address space after `mm_init`. -/
def pagedSpace : MemorySpace :=
  ⟨0x407000, [], 0x100000000, 0x100000000, 0x7FFFFF000000, 0x7FFFFF000000⟩

end PrismaticOS.Kernel
