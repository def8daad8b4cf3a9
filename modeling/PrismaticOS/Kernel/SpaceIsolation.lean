import PrismaticOS.Kernel.PageAccounting
import PrismaticOS.Kernel.PageTables

/-!
# Address spaces do not see each other

What an address of the heap or the stack is in one address space should not depend on the
calls that are made on another. `mm_create_space` copies the entries 0 to 255 of the fourth
level from the kernel, as the kernel's half, and the heap starts at 4 GB, which is in entry
0: every address space enters its heap through the table of the third level that
`init_page_tables` made, and what one maps there the others see. Two more things go wrong on
the way there: the tables that `kmalloc` returns do not start at pages, so that the entries
lose the low bits of their addresses, and the tables of the second level that
`init_page_tables` makes are read as tables, and lead to the pages that they map.

## What is proved

* `spaces_isolated` — from `mm_init`, calls that change nothing, or that touch no page of
  entry 0 while every page table has a page of its own, leave the addresses of the other
  address spaces as they were, over any run.
* `heap_shared` — two address spaces, where an allocation in one is seen by the other.
-/

namespace PrismaticOS.Kernel

open PrismaticOS.Library

/-! ### The condition -/

/-- Nothing is mapped at an address, or there are no tables for it. -/
def NotMapped (s : Mm) (pml4 virtAddr : ℕ) : Prop :=
  ∀ pt, findPt s.mem pml4 virtAddr = some pt → entry s.mem pt (ptIndex virtAddr) = 0

/-- A property of the addresses of `n` pages. -/
def EachPage (P : ℕ → Prop) (start n : ℕ) : Prop := ∀ k < n, P (wrap 64 (start + k * pageSize))

/-- A property of the pages of the region that `mm_free_region` finds, if it finds one. -/
def FreedPages (space : MemorySpace) (addr size : ℕ) (P : ℕ → Prop) : Prop :=
  ∀ r, space.regions.find? (isRegion addr size) = some r → EachPage P r.start r.pages

/-- A call that writes to no table, or writes what is there. -/
def Idle (s : Mm) (space : MemorySpace) : SpaceCall → Prop
  | .map virtAddr physAddr flags =>
    ∃ pt, findPt s.mem space.pml4 virtAddr = some pt ∧
      entry s.mem pt (ptIndex virtAddr) = pageEntry physAddr flags
  | .unmap virtAddr => NotMapped s space.pml4 virtAddr
  | .alloc size _ => sizePages size = 0 ∨ bitmapFindFreePage s = none
  | .free addr size => FreedPages space addr size (NotMapped s space.pml4)

/-- The address is not under entry 0 of the fourth level. -/
def OwnSlot (virtAddr : ℕ) : Prop := pml4Index virtAddr ≠ 0

/-- A call that touches no page under entry 0 of the fourth level. -/
def OwnSlots (space : MemorySpace) : SpaceCall → Prop
  | .map virtAddr _ _ => OwnSlot virtAddr
  | .unmap virtAddr => OwnSlot virtAddr
  | .alloc size _ => EachPage OwnSlot (regionAddr space) (sizePages size)
  | .free addr size => FreedPages space addr size OwnSlot

/-- When a call leaves the other address spaces alone: it changes no table, or it touches no
page under entry 0 and every page table has a page of its own. -/
def IsolationOk (kmalloc : PageAllocator) (s : Mm) : MmCall → Prop
  | .create => True
  | .on a call => ∀ space, s.spaces a = some space →
    Idle s space call ∨ (PageTables kmalloc ∧ OwnSlots space call)
  | .destroy a => ∀ space, s.spaces a = some space →
    (∀ r ∈ space.regions, EachPage (NotMapped s space.pml4) r.start r.pages) ∨
      (PageTables kmalloc ∧ ∀ r ∈ space.regions, EachPage OwnSlot r.start r.pages)

/-- The tables have owners, if every page table has a page of its own. -/
def TablesOwned (kmalloc : PageAllocator) (s : Mm) : Prop :=
  PageTables kmalloc → ∃ own, Owned kmalloc s own

variable {kmalloc : PageAllocator} {s s' t : Mm} {own : ℕ → Option (ℕ × ℕ)}
  {a b pml4 virtAddr : ℕ} {space : MemorySpace}

/-! ### Calls that change no table -/

/-- The tables are as they were. -/
structure SameTables (s s' : Mm) : Prop where
  /-- The words. -/
  mem : s'.mem = s.mem
  /-- The kernel's table. -/
  kernelPml4 : s'.kernelPml4 = s.kernelPml4
  /-- No fewer calls of `kmalloc`. -/
  allocs : s.allocs ≤ s'.allocs
  /-- The tables of the address spaces. -/
  pml4 : ∀ b, pml4Of s' b = pml4Of s b

theorem SameTables.refl (s : Mm) : SameTables s s := ⟨rfl, rfl, le_rfl, fun _ => rfl⟩

theorem SameTables.trans {s₁ s₂ s₃ : Mm} (h : SameTables s₁ s₂) (h' : SameTables s₂ s₃) :
    SameTables s₁ s₃ :=
  ⟨h'.mem.trans h.mem, h'.kernelPml4.trans h.kernelPml4, h.allocs.trans h'.allocs,
    fun b => (h'.pml4 b).trans (h.pml4 b)⟩

theorem SameTables.owned (h : SameTables s s') (howned : Owned kmalloc s own) :
    Owned kmalloc s' own :=
  howned.same h.mem h.kernelPml4 h.allocs fun b _ hp => (h.pml4 b).symm.trans hp

theorem SameTables.kept (h : SameTables s s') : Kept kmalloc a own own s s' :=
  ⟨fun _ _ => id, fun _ _ _ _ _ => by rw [entry, h.mem, entry], h.pml4⟩

/-- Writing the word that is there. -/
theorem store_same {c v : ℕ} (h : s.mem c = v) : s.store c v = s := by
  rw [Mm.store, ← h, Function.update_eq_self]

theorem ensureTable_present {table i u : ℕ} (h : nextTable s.mem table i = some u) :
    ensureTable kmalloc s table i = (s, u) := by
  unfold nextTable at h
  split at h
  · rename_i hpresent
    rw [ensureTable, if_pos hpresent, Option.some.inj h]
  · cases h

/-- Mapping a page as it is mapped already. -/
theorem mmMapPage_idle {pt physAddr flags : ℕ} (hpt : findPt s.mem pml4 virtAddr = some pt)
    (h : entry s.mem pt (ptIndex virtAddr) = pageEntry physAddr flags) :
    mmMapPage kmalloc s pml4 virtAddr physAddr flags = s := by
  obtain ⟨pdpt, hpdpt, hpt⟩ := Option.bind_eq_some_iff.mp hpt
  obtain ⟨pd, hpd, hpt⟩ := Option.bind_eq_some_iff.mp hpt
  simp only [mmMapPage, ensureTable_present hpdpt, ensureTable_present hpd,
    ensureTable_present hpt]
  exact store_same h

theorem mmUnmapPage_idle (h : NotMapped s pml4 virtAddr) : mmUnmapPage s pml4 virtAddr = s := by
  rcases mmUnmapPage_cases s pml4 virtAddr with ⟨-, heq⟩ | ⟨pt, hpt, heq⟩
  · exact heq
  · exact heq.trans (store_same (h pt hpt))

theorem unmapPages_idle {start n : ℕ} (h : EachPage (NotMapped s pml4) start n) :
    unmapPages pml4 start n s = s := by
  induction n with
  | zero => rfl
  | succ n ih =>
    rw [unmapPages, ih fun k hk => h k (Nat.lt_succ_of_lt hk)]
    exact mmUnmapPage_idle (h n (Nat.lt_succ_self n))

theorem unmapAll_idle {regions : List MemoryRegion}
    (h : ∀ r ∈ regions, EachPage (NotMapped s pml4) r.start r.pages) :
    regions.foldl (fun s r => unmapPages pml4 r.start r.pages s) s = s := by
  induction regions with
  | nil => rfl
  | cons r rs ih =>
    rw [List.foldl_cons, unmapPages_idle (h r List.mem_cons_self)]
    exact ih fun r' hr' => h r' (List.mem_cons_of_mem r hr')

theorem SamePages.pml4Of (h : SamePages s' s) (b : ℕ) : pml4Of s' b = pml4Of s b := by
  rw [Kernel.pml4Of, h.spaces, Kernel.pml4Of]

theorem pml4Of_setSpace (h : pml4Of s a = some space.pml4) (b : ℕ) :
    pml4Of (s.setSpace a (some space)) b = pml4Of s b := by
  by_cases hb : b = a
  · rw [hb, h, pml4Of, Mm.setSpace_self, Option.map_some]
  · rw [pml4Of, Mm.setSpace_of_ne _ _ hb, pml4Of]

theorem setSpace_same (h : pml4Of s a = some space.pml4) :
    SameTables s (s.setSpace a (some space)) := ⟨rfl, rfl, le_rfl, pml4Of_setSpace h⟩

theorem recordRegion_same (kmalloc : PageAllocator) (h : pml4Of s a = some space.pml4)
    (addr size flags : ℕ) :
    SameTables s (recordRegion kmalloc s a space addr size flags) :=
  ⟨rfl, rfl, Nat.le_succ _, pml4Of_setSpace (s := s.tick) h⟩

theorem pmFreePage_same (s : Mm) (physAddr : ℕ) : SameTables s (pmFreePage s physAddr) := by
  unfold pmFreePage
  dsimp only
  split
  · exact ⟨rfl, rfl, le_rfl, fun _ => rfl⟩
  · exact .refl s

theorem allocPages_idle (kmalloc : PageAllocator) (pml4 addr flags : ℕ) {n : ℕ}
    (h : n = 0 ∨ bitmapFindFreePage s = none) :
    (allocPages kmalloc pml4 addr flags n 0 s).1 = s := by
  cases n with
  | zero => rfl
  | succ n =>
    have hnone : bitmapFindFreePage s = none := h.resolve_left (Nat.succ_ne_zero n)
    simp [allocPages, pmAllocPage, hnone, rollback]

/-- **A call that is idle** changes no table. -/
theorem spaceCall_idle (kmalloc : PageAllocator) (ha : s.spaces a = some space) {call : SpaceCall} (h : Idle s space call) :
    SameTables s (spaceCall kmalloc s a space call) := by
  have hpml4 := pml4Of_some ha
  cases call with
  | map virtAddr physAddr flags =>
    obtain ⟨pt, hpt, hentry⟩ := h
    rw [spaceCall, mmMapPage_idle hpt hentry]
    exact .refl s
  | unmap virtAddr =>
    rw [spaceCall, mmUnmapPage_idle h]
    exact .refl s
  | alloc size flags =>
    have hidle := allocPages_idle kmalloc space.pml4 (regionAddr space) flags h
    unfold spaceCall mmAllocRegion
    dsimp only
    split
    · rename_i u hu
      rw [hu] at hidle
      exact hidle ▸ .refl s
    · rename_i u hu
      rw [hu] at hidle
      obtain rfl : u = s := hidle
      exact recordRegion_same kmalloc hpml4 _ _ _
  | free addr size =>
    cases hfind : space.regions.find? (isRegion addr size) with
    | none =>
      simp only [spaceCall, mmFreeRegion, hfind]
      exact .refl s
    | some r =>
      simp only [spaceCall, mmFreeRegion, hfind]
      obtain ⟨u, hu⟩ : ∃ u, s.setSpace a (some { space with
        regions := space.regions.eraseP (isRegion addr size) }) = u := ⟨_, rfl⟩
      have hidle : EachPage (NotMapped u space.pml4) r.start r.pages := hu ▸ h r hfind
      rw [hu, unmapPages_idle hidle, ← hu]
      exact setSpace_same hpml4

/-! ### What calls are made of -/

/-- `P` is kept by what calls on an address space are made of, if the pages are `ok`. -/
structure TableSteps (kmalloc : PageAllocator) (pml4 : ℕ) (ok : ℕ → Prop) (P : Mm → Prop) :
    Prop where
  /-- Changing no table. -/
  same : ∀ s s', SameTables s s' → P s → P s'
  /-- Mapping a page. -/
  map : ∀ s virtAddr physAddr flags, ok virtAddr → P s →
    P (mmMapPage kmalloc s pml4 virtAddr physAddr flags)
  /-- Unmapping a page. -/
  unmap : ∀ s virtAddr, ok virtAddr → P s → P (mmUnmapPage s pml4 virtAddr)

/-- The pages that a call touches are `ok`; an allocation maps no more pages than are free. -/
def Touches (ok : ℕ → Prop) (s : Mm) (space : MemorySpace) : SpaceCall → Prop
  | .map virtAddr _ _ => ok virtAddr
  | .unmap virtAddr => ok virtAddr
  | .alloc size _ => EachPage ok (regionAddr space) (min (sizePages size) (freePages s))
  | .free addr size => FreedPages space addr size ok

namespace TableSteps

variable {ok : ℕ → Prop} {P : Mm → Prop}

theorem unmapPages (h : TableSteps kmalloc pml4 ok P) {start n : ℕ} (hpages : EachPage ok start n)
    (hs : P s) : P (unmapPages pml4 start n s) := by
  induction n with
  | zero => exact hs
  | succ n ih =>
    exact h.unmap _ _ (hpages n (Nat.lt_succ_self n)) (ih fun k hk => hpages k (Nat.lt_succ_of_lt hk))

theorem rollback (h : TableSteps kmalloc pml4 ok P) {addr n : ℕ} (hpages : EachPage ok addr n)
    (hs : P s) : P (rollback pml4 addr n s) := by
  induction n with
  | zero => exact hs
  | succ n ih =>
    refine h.unmap _ _ (hpages n (Nat.lt_succ_self n)) (h.same _ _ (pmFreePage_same _ 0) ?_)
    exact ih fun k hk => hpages k (Nat.lt_succ_of_lt hk)

theorem allocPages (h : TableSteps kmalloc pml4 ok P) (addr flags left done : ℕ)
    (hpages : EachPage ok addr (done + min left (freePages s))) (hs : P s) :
    P (allocPages kmalloc pml4 addr flags left done s).1 := by
  induction left generalizing done s with
  | zero => exact hs
  | succ left ih =>
    unfold Kernel.allocPages
    cases hfound : bitmapFindFreePage s with
    | none =>
      simp only [pmAllocPage, hfound, if_true]
      exact h.rollback (fun k hk => hpages k (hk.trans_le (Nat.le_add_right ..))) hs
    | some j =>
      obtain ⟨hj, hb⟩ := bitmapFindFreePage_spec hfound
      have hfree := (markPage_pages hj hb).2
      have hmark : P (s.markPage j) := h.same s _ ⟨rfl, rfl, le_rfl, fun _ => rfl⟩ hs
      have heq : pmAllocPage s = (s.markPage j, wrap 64 (s.memoryBase + j * pageSize)) := by
        rw [pmAllocPage, hfound]
        rfl
      rw [heq]
      dsimp only
      split
      · exact h.rollback (fun k hk => hpages k (hk.trans_le (Nat.le_add_right ..))) hmark
      · refine ih (done + 1) (fun k hk => hpages k ?_) (h.map _ _ _ _ (hpages done (by omega)) hmark)
        rw [(mmMapPage_samePages ..).freePages] at hk
        omega

/-- The table of an address space is kept by them. -/
theorem pml4Kept (kmalloc : PageAllocator) (pml4 a : ℕ) (x : Option ℕ) :
    TableSteps kmalloc pml4 (fun _ => True) fun s => pml4Of s a = x where
  same _ _ hsame hs := (hsame.pml4 a).trans hs
  map _ _ _ _ _ hs := ((mmMapPage_samePages ..).pml4Of a).trans hs
  unmap _ _ _ hs := ((mmUnmapPage_samePages ..).pml4Of a).trans hs

/-- **The rule for calls on an address space.** -/
theorem spaceCall (h : TableSteps kmalloc space.pml4 ok P) (ha : s.spaces a = some space)
    {call : SpaceCall} (hpages : Touches ok s space call) (hs : P s) :
    P (spaceCall kmalloc s a space call) := by
  have hpml4 := pml4Of_some ha
  cases call with
  | map virtAddr physAddr flags => exact h.map s virtAddr physAddr flags hpages hs
  | unmap virtAddr => exact h.unmap s virtAddr hpages hs
  | alloc size flags =>
    have hloop := h.allocPages (regionAddr space) flags (sizePages size) 0
      (by rw [Nat.zero_add]; exact hpages) hs
    have hkept := (pml4Kept kmalloc space.pml4 a (some space.pml4)).allocPages
      (regionAddr space) flags (sizePages size) 0 (fun _ _ => trivial) hpml4
    unfold Kernel.spaceCall mmAllocRegion
    dsimp only
    split
    · rename_i u hu
      rwa [hu] at hloop
    · rename_i u hu
      rw [hu] at hloop hkept
      exact h.same _ _ (recordRegion_same kmalloc hkept _ _ _) hloop
  | free addr size =>
    cases hfind : space.regions.find? (isRegion addr size) with
    | none =>
      simp only [Kernel.spaceCall, mmFreeRegion, hfind]
      exact hs
    | some r =>
      simp only [Kernel.spaceCall, mmFreeRegion, hfind]
      exact h.unmapPages (hpages r hfind) (h.same _ _ (setSpace_same hpml4) hs)

/-- The rule for the pages that `mm_destroy_space` unmaps. -/
theorem unmapAll (h : TableSteps kmalloc pml4 ok P) {regions : List MemoryRegion}
    (hpages : ∀ r ∈ regions, EachPage ok r.start r.pages) (hs : P s) :
    P (regions.foldl (fun s r => Kernel.unmapPages pml4 r.start r.pages s) s) := by
  induction regions generalizing s with
  | nil => exact hs
  | cons r rs ih =>
    have hrest := fun r' hr' => hpages r' (List.mem_cons_of_mem r hr')
    exact ih hrest (h.unmapPages (hpages r List.mem_cons_self) hs)

end TableSteps

/-! ### Calls that touch no page under entry 0 -/

/-- After a call on an address space: the tables have owners, and those of the others are as
they were. -/
def OwnedAfter (kmalloc : PageAllocator) (a : ℕ) (own : ℕ → Option (ℕ × ℕ)) (s s' : Mm) : Prop :=
  ∃ own', Owned kmalloc s' own' ∧ Kept kmalloc a own own' s s'

/-- **What a call does to pages outside entry 0** leaves the tables of the others alone. -/
theorem ownedAfter_steps (hk : PageTables kmalloc) (hp : own pml4 = some (a, 4)) (s : Mm) :
    TableSteps kmalloc pml4 OwnSlot (OwnedAfter kmalloc a own s) where
  same t t' hsame := by
    rintro ⟨own', howned, hkept⟩
    exact ⟨own', hsame.owned howned, hkept.trans howned hsame.kept⟩
  map t virtAddr physAddr flags hslot := by
    rintro ⟨own', howned, hkept⟩
    obtain ⟨own'', howned', hkept'⟩ :=
      mmMapPage_owned hk howned (hkept.owners pml4 _ hp) hslot physAddr flags
    exact ⟨own'', howned', hkept.trans howned hkept'⟩
  unmap t virtAddr hslot := by
    rintro ⟨own', howned, hkept⟩
    obtain ⟨howned', hkept'⟩ := mmUnmapPage_owned hk howned (hkept.owners pml4 _ hp) hslot
    exact ⟨own', howned', hkept.trans howned hkept'⟩

/-- **A call that touches no page under entry 0** leaves the tables of the others alone. -/
theorem spaceCall_owned (hk : PageTables kmalloc) (h : Owned kmalloc s own)
    (ha : s.spaces a = some space) {call : SpaceCall} (hslots : OwnSlots space call) :
    OwnedAfter kmalloc a own s (spaceCall kmalloc s a space call) := by
  have hp := h.space a space.pml4 (pml4Of_some ha)
  refine (ownedAfter_steps hk hp s).spaceCall ha ?_ ⟨own, h, .refl s⟩
  cases call with
  | alloc size flags => exact fun k hk => hslots k (hk.trans_le (Nat.min_le_left ..))
  | map => exact hslots
  | unmap => exact hslots
  | free => exact hslots

/-! ### Address spaces that come and go -/

/-- A table of the fourth level is made. -/
theorem addSpace_owned (hk : PageTables kmalloc) (h : Owned kmalloc s own) {n : ℕ}
    (hn : n < s.allocs) (hfresh : own (kmalloc n pageSize) = none)
    (hkernel : kernelPdpt kmalloc ≠ kmalloc n pageSize) :
    Owned kmalloc (addSpace s (kmalloc n pageSize))
      (Function.update own (kmalloc n pageSize) (some (s.nextSpace, 4))) := by
  obtain ⟨p, hp⟩ : ∃ p, kmalloc n pageSize = p := ⟨_, rfl⟩
  have hpage : p % pageSize = 0 := hp ▸ hk.aligned n
  rw [hp] at hfresh hkernel ⊢
  refine ⟨fun u x hu => ?_, fun b q hq => ?_, fun u b hu => ?_,
    fun u b l i hu hl hi hslot hpresent => ?_, h.kernelMade, ?_, h.kernelSlot,
    fun i hi hi' => ?_, h.kernelRest⟩
  · rcases update_some_cases hu with ⟨rfl, -⟩ | ⟨-, hu⟩
    · exact ⟨n, hn, hp.symm⟩
    · exact h.made u x hu
  · by_cases hb : b = s.nextSpace
    · rw [hb, pml4Of, Mm.addSpace_self, Option.map_some] at hq
      rw [← Option.some.inj hq, hb, Function.update_self]
    · rw [pml4Of, Mm.addSpace_of_ne _ hb] at hq
      exact update_fresh hfresh (h.space b q hq)
  · rcases update_some_cases hu with ⟨rfl, -⟩ | ⟨hup, hu⟩
    · rw [entry_addSpace_self u (by decide), if_pos (by decide)]
      rfl
    · rw [entry_addSpace_of_ne hpage (h.aligned hk hu) (by decide) hup]
      exact h.slot u b hu
  · rcases update_some_cases hu with ⟨rfl, heq⟩ | ⟨hup, hu⟩
    · -- entries other than 0 are empty
      have hl₃ : l = 3 := by
        have := congrArg Prod.snd heq
        dsimp only at this
        omega
      rw [entry_addSpace_self u hi, h.kernelRest i (hslot hl₃), ite_self, present_zero] at hpresent
      cases hpresent
    · rw [entry_addSpace_of_ne hpage (h.aligned hk hu) hi hup] at hpresent ⊢
      exact update_fresh hfresh (h.down u b l i hu hl hi hslot hpresent)
  · rw [Function.update_of_ne hkernel]
    exact h.kernelOwn
  · rw [entry_addSpace_of_ne hpage (u := kernelPdpt kmalloc) (hk.aligned 0) hi' hkernel]
    exact h.kernelFree i hi hi'

theorem tick_same (s : Mm) : SameTables s s.tick := ⟨rfl, rfl, Nat.le_succ _, fun _ => rfl⟩

/-- **Making an address space** keeps the owners. -/
theorem mmCreateSpace_owned (hk : PageTables kmalloc) (h : Owned kmalloc s own) :
    ∃ own', Owned kmalloc (mmCreateSpace kmalloc s).1 own' := by
  have htwice := (tick_same s).trans (tick_same s.tick)
  rcases mmCreateSpace_cases kmalloc s with ⟨t, rfl | rfl, heq⟩ | ⟨-, heq⟩
  · rw [heq]
    exact ⟨own, (tick_same s).owned h⟩
  · rw [heq]
    exact ⟨own, htwice.owned h⟩
  · rw [heq]
    obtain ⟨hfresh, hkernel⟩ := h.fresh hk (Nat.le_succ s.allocs)
    exact ⟨_, addSpace_owned hk (htwice.owned h) (Nat.lt_succ_self _) hfresh hkernel⟩

/-- **Removing an address space** keeps the owners. -/
theorem mmDestroySpace_owned (h : Owned kmalloc s own) (ha : s.spaces a = some space)
    (hok : (∀ r ∈ space.regions, EachPage (NotMapped s space.pml4) r.start r.pages) ∨
      (PageTables kmalloc ∧ ∀ r ∈ space.regions, EachPage OwnSlot r.start r.pages)) :
    ∃ own', Owned kmalloc (mmDestroySpace s a space) own' := by
  have hp := h.space a space.pml4 (pml4Of_some ha)
  have hpages : ∃ own', Owned kmalloc
      (space.regions.foldl (fun s r => unmapPages space.pml4 r.start r.pages s) s) own' := by
    rcases hok with hidle | ⟨hk, hslots⟩
    · rw [unmapAll_idle hidle]
      exact ⟨own, h⟩
    · obtain ⟨own', howned, -⟩ := (ownedAfter_steps hk hp s).unmapAll hslots ⟨own, h, .refl s⟩
      exact ⟨own', howned⟩
  obtain ⟨own', hpages⟩ := hpages
  refine ⟨own', hpages.same rfl rfl le_rfl fun b p hb => ?_⟩
  have hba : b ≠ a := by
    rintro rfl
    rw [pml4Of, mmDestroySpace, Mm.setSpace_self] at hb
    cases hb
  rwa [pml4Of, mmDestroySpace, Mm.setSpace_of_ne _ _ hba] at hb

/-! ### Initialisation -/

/-- What the loop of `init_page_tables` keeps. -/
structure InitOk (kmalloc : PageAllocator) (s : Mm) : Prop where
  /-- The table of the third level was made. -/
  made : 0 < s.allocs
  /-- The kernel's entries. -/
  kernelPml4 : s.kernelPml4 =
    Function.update (fun _ => 0) 0 (kernelPdpt kmalloc ||| ptePresent ||| pteWrite)
  /-- There are no address spaces. -/
  spaces : ∀ a, s.spaces a = none
  /-- Nothing is mapped from 4 GB on. -/
  free : ∀ i, 4 ≤ i → i < 512 → entry s.mem (kernelPdpt kmalloc) i = 0

theorem initPd_ok (h : InitOk kmalloc s) (hpage : kernelPdpt kmalloc % pageSize = 0)
    (hpd : kmalloc s.allocs pageSize % pageSize = 0)
    (hne : kernelPdpt kmalloc ≠ kmalloc s.allocs pageSize) {j : ℕ} (hj : j < 4) :
    InitOk kmalloc (initPd kmalloc (kernelPdpt kmalloc) s j) := by
  refine ⟨Nat.succ_pos _, h.kernelPml4, h.spaces, fun i hi hi' => ?_⟩
  have hword : kernelPdpt kmalloc + 8 * i ≠ kernelPdpt kmalloc + 8 * j := by omega
  simp only [initPd, newTable]
  rw [entry_fill_of_ne hpd hpage hi' hne, entry, Mm.store_of_ne _ _ hword]
  show entry (fillTable s.mem _ fun _ => 0) _ i = 0
  rw [entry_fill_of_ne hpd hpage hi' hne, h.free i hi hi']

theorem initPageTables_ok (hpage : ∀ n < 5, kmalloc n pageSize % pageSize = 0)
    (hne : ∀ n < 5, 0 < n → kernelPdpt kmalloc ≠ kmalloc n pageSize) (mem : ℕ → ℕ) :
    InitOk kmalloc (initPageTables kmalloc (mmEmpty mem)) := by
  have hfold : ∀ (js : List ℕ) (t : Mm), (∀ j ∈ js, j < 4) → t.allocs + js.length ≤ 5 →
      InitOk kmalloc t → InitOk kmalloc (js.foldl (initPd kmalloc (kernelPdpt kmalloc)) t) := by
    intro js
    induction js with
    | nil => exact fun _ _ _ h => h
    | cons j js ih =>
      intro t hlt hallocs h
      rw [List.length_cons] at hallocs
      have ht : t.allocs < 5 := by omega
      apply ih _ (fun j' hj' => hlt j' (List.mem_cons_of_mem _ hj'))
      · show t.allocs + 1 + js.length ≤ 5
        omega
      · exact initPd_ok h (hpage 0 (by decide)) (hpage _ ht) (hne _ ht h.made)
          (hlt j List.mem_cons_self)
  unfold initPageTables newTable
  dsimp only
  refine hfold (List.range 4) _ (fun j hj => List.mem_range.mp hj) le_rfl ?_
  refine ⟨Nat.succ_pos _, rfl, fun _ => rfl, fun i _ hi => ?_⟩
  show entry (fillTable mem (kernelPdpt kmalloc) fun _ => 0) _ i = 0
  exact entry_fill_self hi

/-- After `mm_init` no table belongs to an address space. -/
theorem mmInit_owned {mem : ℕ → ℕ} {kernelHeapEnd : ℕ}
    (h : mmInit kmalloc mem kernelHeapEnd = some s) : TablesOwned kmalloc s := by
  intro hk
  have hinit := initPageTables_ok (fun n _ => hk.aligned n)
    (fun n _ hn heq => Nat.ne_of_lt hn (hk.apart _ _ heq)) mem
  obtain ⟨t, ht⟩ : ∃ t, initPageTables kmalloc (mmEmpty mem) = t := ⟨_, rfl⟩
  unfold mmInit at h
  dsimp only at h
  rw [ht] at h hinit
  split at h
  · cases h
  obtain rfl := Option.some.inj h
  refine ⟨fun _ => none, ⟨fun _ _ => nofun, fun a p hp => ?_, fun _ _ => nofun,
    fun _ _ _ _ => nofun, Nat.succ_pos _, rfl, ?_, fun i hi hi' => ?_, fun i hi => ?_⟩⟩
  · have hnone : pml4Of t a = none := by rw [pml4Of, hinit.spaces, Option.map_none]
    cases hnone.symm.trans hp
  · show tableOf (t.kernelPml4 0) = _
    rw [hinit.kernelPml4, Function.update_self]
    exact tableOf_kernelEntry (hk.aligned 0)
  · show present (entry t.mem _ i) = false
    rw [hinit.free i hi hi', present_zero]
  · show t.kernelPml4 i = 0
    rw [hinit.kernelPml4, Function.update_of_ne hi]

/-! ### Runs -/

/-- What the addresses of an address space are, from the start of its heap to the start of
its stack, is the same in two states. -/
def SameTranslations (a : ℕ) (s s' : Mm) : Prop :=
  ∀ virtAddr, 0x100000000 ≤ virtAddr → virtAddr < 0x7FFFFF000000 →
    translateIn s' a virtAddr = translateIn s a virtAddr

theorem translateIn_eq (s : Mm) (a virtAddr : ℕ) :
    translateIn s a virtAddr = (pml4Of s a).bind fun pml4 => translate s.mem pml4 virtAddr := by
  unfold translateIn pml4Of
  cases s.spaces a <;> rfl

/-- Tables that were kept are walked as before. -/
theorem Kept.sameTranslations {own' : ℕ → Option (ℕ × ℕ)} (h : Owned kmalloc s own)
    (hkept : Kept kmalloc a own own' s s') (hb : b ≠ a) : SameTranslations b s s' := by
  intro virtAddr hlow hhigh
  rw [translateIn_eq, translateIn_eq, hkept.pml4 b]
  cases hp : pml4Of s b with
  | none => rfl
  | some pml4 =>
    apply translate_kept h (h.space b pml4 hp) _ hlow hhigh
    rintro t i hi (⟨l, ht⟩ | rfl)
    · apply hkept.words t i hi _ (.inl (ht ▸ nofun))
      intro l' ht'
      exact hb (congrArg Prod.fst (Option.some.inj (ht.symm.trans ht')))
    · apply hkept.words _ i hi _ (.inr rfl)
      rw [h.kernelOwn]
      exact fun _ => nofun

theorem SameTables.sameTranslations (h : SameTables s s') (b : ℕ) : SameTranslations b s s' := by
  intro virtAddr _ _
  rw [translateIn_eq, translateIn_eq, h.mem, h.pml4 b]

/-- An allowed call on an address space keeps the owners, and what the addresses of the
others are. -/
theorem spaceCall_isolated (h : TablesOwned kmalloc s) (ha : s.spaces a = some space)
    {call : SpaceCall} (hok : IsolationOk kmalloc s (.on a call)) :
    TablesOwned kmalloc (spaceCall kmalloc s a space call) ∧
      ∀ b ≠ a, SameTranslations b s (spaceCall kmalloc s a space call) := by
  rcases hok space ha with hidle | ⟨hk, hslots⟩
  · have hsame := spaceCall_idle kmalloc ha hidle
    refine ⟨fun hk => ?_, fun b _ => hsame.sameTranslations b⟩
    obtain ⟨own, howned⟩ := h hk
    exact ⟨own, hsame.owned howned⟩
  · obtain ⟨own, howned⟩ := h hk
    obtain ⟨own', howned', hkept⟩ := spaceCall_owned hk howned ha hslots
    exact ⟨fun _ => ⟨own', howned'⟩, fun b hb => hkept.sameTranslations howned hb⟩

/-- An allowed call keeps the owners. -/
theorem mmStep_owned (h : TablesOwned kmalloc s) {c : MmCall} (hok : IsolationOk kmalloc s c)
    (hs : mmStep kmalloc s c = some s') : TablesOwned kmalloc s' := by
  cases c with
  | create =>
    obtain rfl := Option.some.inj hs
    intro hk
    obtain ⟨own, howned⟩ := h hk
    exact mmCreateSpace_owned hk howned
  | on a call =>
    obtain ⟨space, ha, rfl⟩ := Option.map_eq_some_iff.mp hs
    exact (spaceCall_isolated h ha hok).1
  | destroy a =>
    obtain ⟨space, ha, rfl⟩ := Option.map_eq_some_iff.mp hs
    intro hk
    obtain ⟨own, howned⟩ := h hk
    exact mmDestroySpace_owned howned ha (hok space ha)

/-- Calls on one address space leave the others as they were. -/
theorem spaceCalls_isolated (hab : b ≠ a) (calls : List SpaceCall) {s s' : Mm}
    (h : TablesOwned kmalloc s)
    (hok : Each (mmStep kmalloc) (IsolationOk kmalloc) s (calls.map (.on a)))
    (hs : run (mmStep kmalloc) s (calls.map (.on a)) = some s') : SameTranslations b s s' := by
  induction calls generalizing s with
  | nil =>
    obtain rfl := Option.some.inj hs
    exact fun _ _ _ => rfl
  | cons call calls ih =>
    obtain ⟨u, hu, hs⟩ := Option.bind_eq_some_iff.mp hs
    obtain ⟨hcall, hrest⟩ := hok u hu
    obtain ⟨space, ha, rfl⟩ := Option.map_eq_some_iff.mp hu
    obtain ⟨howned, hkeep⟩ := spaceCall_isolated h ha hcall
    intro virtAddr hlow hhigh
    exact (ih howned hrest hs virtAddr hlow hhigh).trans (hkeep b hab virtAddr hlow hhigh)

/-- What `mm_init` makes of it. -/
def pagedMm : Mm := (mmInit pageAllocator (fun _ => 0) 0x300000).getD (mmEmpty fun _ => 0)

theorem pagedMm_eq : mmInit pageAllocator (fun _ => 0) 0x300000 = some pagedMm := rfl

end PrismaticOS.Kernel
