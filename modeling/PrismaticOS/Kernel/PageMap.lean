import PrismaticOS.Kernel.PageTrees
import PrismaticOS.Kernel.SpaceIsolation

/-!
# Page tables are a map

`mm_map_page` and `mm_unmap_page` keep a map from pages to physical pages and what may be
done with them. In the upper half of an address space, which has tables of its own, what
the processor finds is what the map says.

## What is proved

* `page_map` — after any calls on a new address space, the walk for an address of the upper
  half gives what was last mapped there.
-/

namespace PrismaticOS.Kernel

open PrismaticOS.Library

/-! ### The map -/

/-- What a call makes of the map from pages: a page is put in, or taken out. -/
def mapCall (pages : ℕ → Option Mapping) : SpaceCall → ℕ → Option Mapping
  | .map virtAddr physAddr flags => Function.update pages (virtAddr / pageSize)
    (some ⟨physAddr / pageSize, flags &&& memWrite != 0, flags &&& memExec == 0⟩)
  | .unmap virtAddr => Function.update pages (virtAddr / pageSize) none
  | .alloc .. | .free .. => pages

/-- An address of 48 bits in the upper half. -/
def UpperHalf (virtAddr : ℕ) : Prop := virtAddr < 2 ^ 48 ∧ 256 ≤ pml4Index virtAddr

/-- A page of the upper half is mapped to a physical page, or unmapped. -/
def UpperCall : SpaceCall → Prop
  | .map virtAddr physAddr _ => UpperHalf virtAddr ∧ physAddr % pageSize = 0 ∧ physAddr < 2 ^ 51
  | .unmap virtAddr => UpperHalf virtAddr
  | .alloc .. | .free .. => False

/-- The paths that start in the lower half. -/
def LowerHalf (path : List (Fin 512)) : Prop := ∃ i : Fin 512, i.val < 256 ∧ path = [i]

/-- The tables of an address space are a tree, and say what the map says. -/
def Refines (kmalloc : PageAllocator) (lo : ℕ) (s : Mm) (a : ℕ) (pages : ℕ → Option Mapping) :
    Prop :=
  ∃ pml4 path, pml4Of s a = some pml4 ∧ TableTree LowerHalf kmalloc lo s path ∧
    path pml4 = some [] ∧ ∀ w, UpperHalf w →
      entryMapping (leafEntry s.mem pml4 w) = pages (w / pageSize)

variable {kmalloc : PageAllocator} {lo hi a w virtAddr : ℕ} {s s₁ : Mm}
  {pages : ℕ → Option Mapping}

theorem UpperHalf.visible (h : UpperHalf virtAddr) : Visible LowerHalf virtAddr := by
  rintro q hq ⟨i, hi, rfl⟩
  have hhead : i.val = pml4Index virtAddr := congrArg Fin.val (List.cons_prefix_cons.mp hq).1
  exact absurd (hhead ▸ h.2) (Nat.not_le.mpr hi)

/-- Addresses of 48 bits are in the same page if their numbers are the same. -/
theorem UpperHalf.page_iff (hw : UpperHalf w) (hv : UpperHalf virtAddr) :
    w / pageSize % 2 ^ 36 = virtAddr / pageSize % 2 ^ 36 ↔ w / pageSize = virtAddr / pageSize := by
  have hw := hw.1
  have hv := hv.1
  rw [pageSize]
  omega

/-! ### The calls -/

/-- A new address space has nothing in the upper half. -/
theorem mmCreateSpace_refines (h : mmCreateSpace kmalloc s = (s₁, some a)) :
    Refines kmalloc (s.allocs + 1) s₁ a fun _ => none := by
  rcases mmCreateSpace_cases kmalloc s with ⟨t, -, heq⟩ | ⟨-, heq⟩
  · rw [h] at heq
    cases heq
  rw [h] at heq
  cases heq
  obtain ⟨pml4, hpml4⟩ : ∃ pml4, kmalloc s.tick.allocs pageSize = pml4 := ⟨_, rfl⟩
  have hmade : s.allocs + 1 < (addSpace s.tick.tick pml4).allocs := Nat.lt_succ_self _
  have hspace : pml4Of (addSpace s.tick.tick pml4) s.tick.tick.nextSpace = some pml4 :=
    congrArg (Option.map MemorySpace.pml4) (Mm.addSpace_self ..)
  have hnext : ∀ i < 512, 256 ≤ i → nextTable (addSpace s.tick.tick pml4).mem pml4 i = none := by
    intro i hi hi'
    have hword : entry (addSpace s.tick.tick pml4).mem pml4 i = 0 :=
      (entry_addSpace_self pml4 hi).trans (if_neg (Nat.not_lt.mpr hi'))
    rw [nextTable, hword]
    rfl
  have hroot : ∀ i u, (pageRadix LowerHalf).inner [i] →
      (pageRadix LowerHalf).next (tableWord (addSpace s.tick.tick pml4).mem pml4 i) = some u →
        none = some [i] ∧ (pageRadix LowerHalf).good (tableWord (addSpace s.tick.tick pml4).mem pml4 i) := by
    intro i u hin hu
    have hupper : 256 ≤ i.val :=
      Nat.le_of_not_lt fun hlt => hin.2 [i] List.prefix_rfl ⟨i, hlt, rfl⟩
    rw [next_nextTable, hnext i i.isLt hupper] at hu
    cases hu
  rw [hpml4]
  refine ⟨pml4, Function.update (fun _ => none) pml4 (some []), hspace, ⟨fun t p ht => ?_,
    (Radix.labelled_none _ (tableWord s.mem)).addTable rfl (fun _ _ _ ht => by cases ht) hroot⟩,
    Function.update_self .., fun w hw => ?_⟩
  · rcases update_some_cases ht with ⟨rfl, -⟩ | ⟨-, ht⟩
    · exact ⟨s.allocs + 1, le_rfl, hmade, hpml4.symm⟩
    · cases ht
  · rw [leafEntry, findPt, hnext _ (index_lt w).1 hw.2]
    exact entryMapping_zero

/-- **A call changes the map** as it should. -/
theorem mmStep_refines (h : Refines kmalloc lo s a pages) {call : SpaceCall} (hcall : UpperCall call)
    (hs : mmStep kmalloc s (.on a call) = some s₁) (hf : FreshFrames kmalloc lo hi)
    (hhi : s₁.allocs ≤ hi) : Refines kmalloc lo s₁ a (mapCall pages call) := by
  obtain ⟨pml4, path, hpml4, htree, hlabel, hpages⟩ := h
  obtain ⟨space, ha, rfl⟩ := Option.map_eq_some_iff.mp hs
  have hspace : space.pml4 = pml4 := by
    rw [pml4Of, ha, Option.map_some, Option.some.injEq] at hpml4
    exact hpml4
  subst hspace
  cases call with
  | map virtAddr physAddr flags =>
    obtain ⟨hv, hpage, hlt⟩ := hcall
    obtain ⟨path', htree', hlabels, hentries⟩ := mmMapPage_tree htree hf physAddr flags hhi hlabel hv.visible
    have hsame := mmMapPage_samePages kmalloc s space.pml4 virtAddr physAddr flags
    refine ⟨space.pml4, path', (hsame.pml4Of a).trans hpml4, htree', hlabels _ _ hlabel,
      fun w hw => ?_⟩
    rw [spaceCall, hentries w hw.visible, mapCall, Function.update_apply]
    simp only [hw.page_iff hv]
    split
    · exact entryMapping_pageEntry hpage hlt flags
    · exact hpages w hw
  | unmap virtAddr =>
    have hv : UpperHalf virtAddr := hcall
    have hallocs : s.allocs ≤ hi := by rwa [spaceCall, mmUnmapPage_allocs] at hhi
    obtain ⟨htree', hentries⟩ := mmUnmapPage_tree htree hf hallocs hlabel hv.visible
    have hsame := mmUnmapPage_samePages s space.pml4 virtAddr
    refine ⟨space.pml4, path, (hsame.pml4Of a).trans hpml4, htree', hlabel, fun w hw => ?_⟩
    rw [spaceCall, hentries w hw.visible, mapCall, Function.update_apply]
    simp only [hw.page_iff hv]
    split
    · exact entryMapping_zero
    · exact hpages w hw
  | alloc => exact hcall.elim
  | free => exact hcall.elim

/-- A call returns, and takes no tables back. -/
theorem mmStep_upper (kmalloc : PageAllocator) {call : SpaceCall} (hcall : UpperCall call)
    (ha : (s.spaces a).isSome) : ∃ s₁, mmStep kmalloc s (.on a call) = some s₁ ∧
      s₁.spaces = s.spaces ∧ s.allocs ≤ s₁.allocs := by
  obtain ⟨space, ha⟩ := Option.isSome_iff_exists.mp ha
  refine ⟨spaceCall kmalloc s a space call, by rw [mmStep, ha, Option.map_some], ?_⟩
  cases call with
  | map virtAddr physAddr flags =>
    exact ⟨(mmMapPage_samePages ..).spaces, (mmMapPage_allocs ..).1⟩
  | unmap virtAddr => exact ⟨(mmUnmapPage_samePages ..).spaces, (mmUnmapPage_allocs ..).ge⟩
  | alloc => exact hcall.elim
  | free => exact hcall.elim

/-- The run: each call changes the map. -/
theorem run_refines (kmalloc : PageAllocator) {calls : List SpaceCall}
    (hcalls : ∀ call ∈ calls, UpperCall call) (ha : (s.spaces a).isSome) :
    ∃ s₂, run (mmStep kmalloc) s (calls.map (.on a)) = some s₂ ∧ s.allocs ≤ s₂.allocs ∧
      ∀ lo hi pages, FreshFrames kmalloc lo hi → s₂.allocs ≤ hi → Refines kmalloc lo s a pages →
        Refines kmalloc lo s₂ a (calls.foldl mapCall pages) := by
  induction calls generalizing s with
  | nil => exact ⟨s, rfl, le_rfl, fun _ _ _ _ _ h => h⟩
  | cons call calls ih =>
    have hcall := hcalls call List.mem_cons_self
    obtain ⟨s₁, hs₁, hspaces, hallocs⟩ := mmStep_upper kmalloc hcall ha
    obtain ⟨s₂, hrun, hallocs', hrest⟩ := ih (s := s₁)
      (fun c hc => hcalls c (List.mem_cons_of_mem _ hc)) (hspaces ▸ ha)
    refine ⟨s₂, ?_, hallocs.trans hallocs', fun lo hi pages hf hhi h => ?_⟩
    · rw [List.map_cons, run, hs₁, Option.bind_some, hrun]
    · exact hrest lo hi _ hf hhi (mmStep_refines h hcall hs₁ hf (hallocs'.trans hhi))

/-- **Page tables are a map**: after calls that map and unmap pages of the upper half of a new
address space, with tables that are pages of their own, the walk gives what the map says. -/
theorem page_map (kmalloc : PageAllocator) (s s₁ : Mm) (a : ℕ)
    (hcreate : mmCreateSpace kmalloc s = (s₁, some a)) (calls : List SpaceCall)
    (hcalls : ∀ call ∈ calls, UpperCall call) :
    ∃ s₂, run (mmStep kmalloc) s₁ (calls.map (.on a)) = some s₂ ∧
      (FreshFrames kmalloc (s.allocs + 1) s₂.allocs → ∀ w, UpperHalf w →
        (translateIn s₂ a w).map Translation.mapping =
          calls.foldl mapCall (fun _ => none) (w / pageSize)) := by
  have hstart := mmCreateSpace_refines hcreate
  have ha : (s₁.spaces a).isSome := by
    obtain ⟨pml4, path, hpml4, -⟩ := hstart
    obtain ⟨space, ha, -⟩ := Option.map_eq_some_iff.mp hpml4
    rw [ha, Option.isSome_some]
  obtain ⟨s₂, hrun, -, hrefines⟩ := run_refines kmalloc hcalls ha
  refine ⟨s₂, hrun, fun hf w hw => ?_⟩
  obtain ⟨pml4, path, hpml4, htree, hlabel, hpages⟩ := hrefines _ _ _ hf le_rfl hstart
  obtain ⟨space, ha₂, rfl⟩ := Option.map_eq_some_iff.mp hpml4
  rw [translateIn, ha₂, Option.bind_some, translate_mapping htree hlabel hw.visible, hpages w hw]

/-- A page that is mapped twice and its neighbour, which is unmapped. -/
def mapTwice : List SpaceCall :=
  [.map 0x800000000000 0x300000 memExec, .map 0x800000001000 0x301000 memWrite,
    .map 0x800000000000 0x302000 memWrite, .unmap 0x800000001000]

/-- The first page is what it was mapped to last, and the second is not mapped. -/
theorem page_map_twice : ∃ s₁ s₂, mmCreateSpace pageAllocator (mmEmpty fun _ => 0) = (s₁, some 0) ∧
    run (mmStep pageAllocator) s₁ (mapTwice.map (.on 0)) = some s₂ ∧
      (translateIn s₂ 0 0x800000000123).map Translation.mapping = some ⟨0x302, true, true⟩ ∧
        (translateIn s₂ 0 0x800000001123).map Translation.mapping = none := by
  obtain ⟨r, hr⟩ : ∃ r, mmCreateSpace pageAllocator (mmEmpty fun _ => 0) = r := ⟨_, rfl⟩
  have hspace : r.2 = some 0 := by
    rw [← hr]
    decide +kernel
  have hcreate : mmCreateSpace pageAllocator (mmEmpty fun _ => 0) = (r.1, some 0) := by
    rw [← hspace]
    exact hr
  have hcalls : ∀ call ∈ mapTwice, UpperCall call := by
    have hupper : UpperHalf 0x800000000000 ∧ UpperHalf 0x800000001000 := by
      unfold UpperHalf
      decide
    simp only [mapTwice, List.forall_mem_cons, List.not_mem_nil, false_implies, implies_true, and_true]
    exact ⟨⟨hupper.1, by decide, by decide⟩, ⟨hupper.2, by decide, by decide⟩,
      ⟨hupper.1, by decide, by decide⟩, hupper.2⟩
  obtain ⟨s₂, hrun, hmap⟩ :=
    page_map pageAllocator (mmEmpty fun _ => 0) r.1 0 hcreate mapTwice hcalls
  have hallocs : s₂.allocs = 5 := by
    have hfive : (run (mmStep pageAllocator) r.1 (mapTwice.map (.on 0))).map Mm.allocs = some 5 := by
      rw [← hr]
      decide +kernel
    rw [hrun] at hfive
    exact Option.some.inj hfive
  have hf : FreshFrames pageAllocator 1 s₂.allocs := pageAllocator_fresh 1 (by rw [hallocs]; decide)
  refine ⟨r.1, s₂, hcreate, hrun, ?_, ?_⟩
  · rw [hmap hf _ (by unfold UpperHalf; decide)]
    decide
  · rw [hmap hf _ (by unfold UpperHalf; decide)]
    decide

end PrismaticOS.Kernel
