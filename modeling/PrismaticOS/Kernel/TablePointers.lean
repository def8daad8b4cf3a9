import PrismaticOS.Kernel.HeapSafety
import PrismaticOS.Kernel.PageTables

/-!
# Page tables from the kernel heap

`init_page_tables`, `mm_create_space` and `mm_map_page` take a page table from
`kmalloc(PAGE_SIZE)` and keep its address with flags in the low 12 bits, which they cut
off again. A block of the heap is a header of 24 bytes and what follows it.

## What is proved

* `tables_survive_iff` — when the address of a table is what is left of its entry, in
  every state of the heap that a run reaches.
* `first_table_cut` — it is not for the first table.
-/

namespace PrismaticOS.Kernel

open PrismaticOS.Library

/-- What the address of a table is kept in. -/
inductive TableSlot where
  /-- `space->pml4`, which goes to CR3. -/
  | space
  /-- An entry that `init_page_tables` makes. -/
  | kernel
  /-- An entry that `mm_map_page` makes. -/
  | user

/-- What is stored there. -/
def TableSlot.entry : TableSlot → ℕ → ℕ
  | .space, table => table
  | .kernel, table => table ||| ptePresent ||| pteWrite
  | .user, table => table ||| ptePresent ||| pteWrite ||| pteUser

/-! ### The stores -/

theorem initPageTables_slot (kmalloc : PageAllocator) (s : Mm) :
    (initPageTables kmalloc s).kernelPml4 0 =
      TableSlot.kernel.entry (kmalloc s.allocs pageSize) := by
  have hfold : ∀ (js : List ℕ) (t : Mm) (pdpt : ℕ),
      (js.foldl (initPd kmalloc pdpt) t).kernelPml4 = t.kernelPml4 := by
    intro js
    induction js with
    | nil => exact fun _ _ => rfl
    | cons j js ih => exact fun t pdpt => ih _ pdpt
  have hkernel := hfold (List.range 4) ({ (newTable kmalloc s).1 with
    kernelPml4 := Function.update s.kernelPml4 0 (TableSlot.kernel.entry (newTable kmalloc s).2) })
    (newTable kmalloc s).2
  exact (congrFun hkernel 0).trans (Function.update_self 0 _ s.kernelPml4)

theorem initPd_slot (kmalloc : PageAllocator) (s : Mm) (pdpt j : ℕ) :
    (initPd kmalloc pdpt s j).mem =
      fillTable ((newTable kmalloc s).1.store (pdpt + 8 * j)
        (TableSlot.kernel.entry (kmalloc s.allocs pageSize))).mem (kmalloc s.allocs pageSize) fun k =>
          (j * 512 * pageSize + k * pageSize) ||| ptePresent ||| pteWrite ||| pteGlobal :=
  rfl

theorem ensureTable_slot (kmalloc : PageAllocator) {s : Mm} {t i : ℕ}
    (h : present (entry s.mem t i) = false) :
    (ensureTable kmalloc s t i).2 = tableOf (TableSlot.user.entry (kmalloc s.allocs pageSize)) := by
  rcases ensureTable_cases kmalloc s t i with ⟨hpresent, -⟩ | ⟨-, heq⟩
  · rw [h] at hpresent
    cases hpresent
  · rw [heq]
    exact congrArg tableOf (Mm.store_self ..)

theorem mmCreateSpace_slot (kmalloc : PageAllocator) {s s' : Mm} {a : ℕ}
    (h : mmCreateSpace kmalloc s = (s', some a)) :
    pml4Of s' a = some (TableSlot.space.entry (kmalloc s.tick.allocs pageSize)) := by
  rcases mmCreateSpace_cases kmalloc s with ⟨t, -, heq⟩ | ⟨-, heq⟩
  · rw [h] at heq
    cases heq
  · rw [h] at heq
    cases heq
    exact congrArg (Option.map MemorySpace.pml4) (Mm.addSpace_self ..)

/-! ### What is left of an entry -/

/-- Cutting off the flags gives the address back if it has no bit below bit 12. -/
theorem tableOf_slot_iff (slot : TableSlot) (table : ℕ) :
    tableOf (slot.entry table) = table ↔ table % pageSize = 0 := by
  constructor
  · intro h
    rw [← h, tableOf]
    exact Nat.mul_mod_left ..
  · intro h
    cases slot with
    | space =>
      rw [pageSize] at h
      rw [TableSlot.entry, tableOf]
      omega
    | kernel => exact tableOf_kernelEntry h
    | user => exact tableOf_newEntry h

/-- **Table pointers survive**: the table that `kmalloc(PAGE_SIZE)` returns in this state
is what is left of each entry that it may be kept in. -/
def TablesSurvive (r : HeapRun) : Prop :=
  ∀ h' table, kmalloc r.heap pageSize = some (h', table) →
    ∀ slot : TableSlot, tableOf (slot.entry table) = table

/-- The block that `kmalloc` takes for a table, a free one or the next one that is carved,
starts 24 bytes before a page; or there is none. -/
def NextTableAligned (r : HeapRun) : Prop :=
  ∀ block, searchHeap r.heap pageSize = some block →
    block = 0 ∧ heapFull r.heap (align8 pageSize) ∨
      (if block = 0 then r.heap.kernelHeapCurrent else block) % pageSize = pageSize - 24

theorem wrap_mod_pageSize (n : ℕ) : wrap 64 n % pageSize = n % pageSize :=
  Nat.mod_mod_of_dvd n (by decide)

theorem payload_aligned_iff (block : ℕ) :
    wrap 64 (block + sizeofHeapBlock) % pageSize = 0 ↔ block % pageSize = pageSize - 24 := by
  rw [wrap_mod_pageSize, sizeofHeapBlock, pageSize]
  omega

theorem tablesSurvive_iff (r : HeapRun) : TablesSurvive r ↔ NextTableAligned r := by
  have hslots : ∀ table, (∀ slot : TableSlot, tableOf (slot.entry table) = table) ↔
      table % pageSize = 0 := by
    intro table
    exact ⟨fun h => (tableOf_slot_iff .space table).mp (h .space),
      fun h slot => (tableOf_slot_iff slot table).mpr h⟩
  have hsize : pageSize ≠ 0 := by decide
  simp only [TablesSurvive, NextTableAligned, hslots]
  rw [kmalloc, if_neg hsize, show findBlock r.heap.mem (align8 pageSize) addresses
    r.heap.heapFreeList = searchHeap r.heap pageSize from rfl]
  cases searchHeap r.heap pageSize with
  | none => exact ⟨fun _ _ => nofun, fun _ _ _ => nofun⟩
  | some block =>
    simp only [Option.map_some, Option.some.injEq, forall_eq']
    by_cases hb : block = 0
    · rw [if_neg (not_not.mpr hb), if_pos hb]
      by_cases hfull : heapFull r.heap (align8 pageSize)
      · rw [if_pos hfull]
        refine iff_of_true ?_ (.inl ⟨hb, hfull⟩)
        rintro h' table ⟨-, rfl⟩
        rfl
      · rw [if_neg hfull, or_iff_right fun h => hfull h.2]
        rw [← payload_aligned_iff]
        simp
    · rw [if_pos hb, if_neg hb, or_iff_right fun h => hb h.1, ← payload_aligned_iff]
      simp

/-- **The tables of a run**: in every state that a run of the allocator reaches, a table's
address survives exactly when the block it is in is aligned. -/
theorem tables_survive_iff (mem : Mem) (kernelEnd : ℕ) (calls : List HeapCall) :
    Always heapStep (fun r => TablesSurvive r ↔ NextTableAligned r) (heapRunInit mem kernelEnd)
      calls :=
  always_of_step (fun _ _ r _ _ => tablesSurvive_iff r) (tablesSurvive_iff _)

/-- The first table is in a block at the start of the heap, which starts at a page: its
address does not survive. -/
theorem first_table_cut (mem : Mem) (kernelEnd : ℕ) (hk : ImageEnd kernelEnd) :
    ¬TablesSurvive (heapRunInit mem kernelEnd) := by
  obtain ⟨start, -, hlt, hpage, hinit⟩ := heapInit_eq mem hk
  have hsearch : searchHeap (heapRunInit mem kernelEnd).heap pageSize = some 0 := by
    rw [heapRunInit, hinit, searchHeap, findBlock_eq (L := []) ⟨rfl, nofun⟩]
    · rfl
    · exact addresses_pos
  intro h
  have halign := (tablesSurvive_iff _).mp h 0 hsearch
  rw [if_pos rfl, heapRunInit, hinit] at halign
  dsimp only at halign
  rcases halign with ⟨-, hfull⟩ | hmod
  · rw [heapFull, show align8 pageSize = 4096 from rfl, sizeofHeapBlock] at hfull
    dsimp only at hfull
    rw [wrap_of_lt (by omega)] at hfull
    omega
  · rw [hpage] at hmod
    cases hmod

/-- With a kernel image that ends at 2 MB it is at 0x200018, of which 0x200000 is left. -/
theorem table_pointer_cut : ¬ ∀ mem kernelEnd, ImageEnd kernelEnd → ∀ calls,
    Always heapStep TablesSurvive (heapRunInit mem kernelEnd) calls :=
  fun h => first_table_cut (fun _ => 0) 0x200000 ⟨by decide, by decide⟩
    (h _ _ ⟨by decide, by decide⟩ [])

end PrismaticOS.Kernel
