import Mathlib.Logic.Function.Basic
import PrismaticOS.Library.Words
import PrismaticOS.Library.Runs
import PrismaticOS.Kernel.Heap

/-!
# Physical pages and address spaces

The part of `kernel/mm.c` above the heap: the bitmap of physical pages, the page tables
of four levels, and the regions of the address spaces.

## The model

The page tables are 64-bit words in memory, each at an address that is a multiple of 8,
so that they do not overlap. A table is entered where the code enters it: at the address
that `kmalloc` returned for the table of the fourth level, and at the entry of the level
above without its low 12 bits for the others. `kernel_pml4` is a static array. An address
space is the number of the call that made it, and its list of regions is a list of
records, the last one made first; their names, which nothing reads, are left out.

`kmalloc` is an oracle: the address that its `n`-th call returns for some size, 0 for
`NULL`. Where the headers of the heap are is not here, as they are not in what it
returned.

`mm_switch_space` is declared and not defined. The registers and the TLB, which
`init_page_tables` and `invlpg` change, are not here.
-/

namespace PrismaticOS.Kernel

open PrismaticOS.Library

/-! ### Constants -/

/-- `PAGE_ALIGN`. -/
def pageAlign (n : ℕ) : ℕ := wrap 64 (n + (pageSize - 1)) / pageSize * pageSize

/-- `PTE_PRESENT`. -/
def ptePresent : ℕ := 0x1

/-- `PTE_WRITE`. -/
def pteWrite : ℕ := 0x2

/-- `PTE_USER`. -/
def pteUser : ℕ := 0x4

/-- `PTE_GLOBAL`. -/
def pteGlobal : ℕ := 0x100

/-- `PTE_NX`. -/
def pteNx : ℕ := 0x8000000000000000

/-- `MEM_WRITE`. -/
def memWrite : ℕ := 0x2

/-- `MEM_EXEC`. -/
def memExec : ℕ := 0x4

/-- `sizeof(memory_space_t)`. -/
def sizeofMemorySpace : ℕ := 48

/-- `sizeof(memory_region_t)`. -/
def sizeofMemoryRegion : ℕ := 64

/-! ### The state -/

/-- A `memory_region_t`. -/
structure MemoryRegion where
  /-- The first address. -/
  start : ℕ
  /-- The address after the last one. -/
  «end» : ℕ
  /-- How it may be used. -/
  flags : ℕ

/-- A `memory_space_t`. -/
structure MemorySpace where
  /-- The table of the fourth level. -/
  pml4 : ℕ
  /-- The regions, the last one made first. -/
  regions : List MemoryRegion
  /-- Where the heap starts. -/
  heapStart : ℕ
  /-- Where the heap ends. -/
  heapEnd : ℕ
  /-- Where the stack starts. -/
  stackStart : ℕ
  /-- Where the stack ends. -/
  stackEnd : ℕ

/-- The static variables of `mm.c`, and what they point at. -/
structure Mm where
  /-- `memory_bitmap`. -/
  memoryBitmap : ℕ → Bool
  /-- `memory_total_pages`. -/
  memoryTotalPages : ℕ
  /-- `memory_used_pages`. -/
  memoryUsedPages : ℕ
  /-- `memory_base`. -/
  memoryBase : ℕ
  /-- `kernel_pml4`. -/
  kernelPml4 : ℕ → ℕ
  /-- The words of memory. -/
  mem : ℕ → ℕ
  /-- The address spaces. -/
  spaces : ℕ → Option MemorySpace
  /-- How many address spaces were made. -/
  nextSpace : ℕ
  /-- How many calls of `kmalloc` were made. -/
  allocs : ℕ

/-- The address that the `n`-th call of `kmalloc` returns for a size. -/
abbrev PageAllocator := ℕ → ℕ → ℕ

namespace Mm

/-- A word is written. -/
def store (s : Mm) (a v : ℕ) : Mm := { s with mem := Function.update s.mem a v }

/-- `kmalloc` is called. -/
def tick (s : Mm) : Mm := { s with allocs := s.allocs + 1 }

/-- What the pointer of an address space points at changes. -/
def setSpace (s : Mm) (a : ℕ) (space : Option MemorySpace) : Mm :=
  { s with spaces := Function.update s.spaces a space }

end Mm

/-! ### Physical pages -/

/-- `bitmap_find_free_page`. -/
def bitmapFindFreePage (s : Mm) : Option ℕ :=
  (List.range s.memoryTotalPages).find? fun i => !s.memoryBitmap i

/-- `pm_alloc_page`: the page, or 0. -/
def pmAllocPage (s : Mm) : Mm × ℕ :=
  match bitmapFindFreePage s with
  | none => (s, 0)
  | some pageIndex =>
    ({ s with
        memoryBitmap := Function.update s.memoryBitmap pageIndex true
        memoryUsedPages := wrap 64 (s.memoryUsedPages + 1) },
      wrap 64 (s.memoryBase + pageIndex * pageSize))

/-- `pm_free_page`. -/
def pmFreePage (s : Mm) (physAddr : ℕ) : Mm :=
  let pageIndex := wsub 64 physAddr s.memoryBase / pageSize
  if pageIndex < s.memoryTotalPages ∧ s.memoryBitmap pageIndex = true then
    { s with
      memoryBitmap := Function.update s.memoryBitmap pageIndex false
      memoryUsedPages := wsub 64 s.memoryUsedPages 1 }
  else s

/-- `pm_init_region`, after its bitmap was allocated. -/
def pmInitRegion (s : Mm) (start size kernelHeapEnd : ℕ) : Mm :=
  let totalPages := size / pageSize
  let kernelPages := pageAlign kernelHeapEnd / pageSize
  { s with
    memoryBase := start
    memoryTotalPages := totalPages
    memoryBitmap := fun i => decide (i < kernelPages ∧ i < totalPages)
    memoryUsedPages := wrap 64 (s.memoryUsedPages + min kernelPages totalPages) }

/-! ### Page tables -/

/-- `table[i]`. -/
def entry (mem : ℕ → ℕ) (table i : ℕ) : ℕ := mem (table + 8 * i)

/-- `entry & PTE_PRESENT`. -/
def present (e : ℕ) : Bool := e &&& ptePresent != 0

/-- `entry & ~0xFFF`. -/
def tableOf (e : ℕ) : ℕ := e / 4096 * 4096

/-- `(virt_addr >> 39) & 0x1FF`. -/
def pml4Index (virtAddr : ℕ) : ℕ := virtAddr / 2 ^ 39 % 512

/-- `(virt_addr >> 30) & 0x1FF`. -/
def pdptIndex (virtAddr : ℕ) : ℕ := virtAddr / 2 ^ 30 % 512

/-- `(virt_addr >> 21) & 0x1FF`. -/
def pdIndex (virtAddr : ℕ) : ℕ := virtAddr / 2 ^ 21 % 512

/-- `(virt_addr >> 12) & 0x1FF`. -/
def ptIndex (virtAddr : ℕ) : ℕ := virtAddr / 2 ^ 12 % 512

/-- A loop over the 512 entries of a table that writes `f i` to entry `i`; where `f` is 0,
`memset(table, 0, PAGE_SIZE)`. -/
def fillTable (mem : ℕ → ℕ) (table : ℕ) (f : ℕ → ℕ) : ℕ → ℕ := fun a =>
  if table ≤ a ∧ a < table + pageSize ∧ (a - table) % 8 = 0 then f ((a - table) / 8) else mem a

/-- A table from `kmalloc`, cleared. -/
def newTable (kmalloc : PageAllocator) (s : Mm) : Mm × ℕ :=
  let table := kmalloc s.allocs pageSize
  ({ s.tick with mem := fillTable s.mem table fun _ => 0 }, table)

/-- What `mm_map_page` does at each level but the last: the entry is made if there is none,
and leads to the table of the next level. -/
def ensureTable (kmalloc : PageAllocator) (s : Mm) (table i : ℕ) : Mm × ℕ :=
  if present (entry s.mem table i) then (s, tableOf (entry s.mem table i))
  else
    match newTable kmalloc s with
    | (s, next) =>
      let s := s.store (table + 8 * i) (next ||| ptePresent ||| pteWrite ||| pteUser)
      (s, tableOf (entry s.mem table i))

/-- The entry of a page. -/
def pageEntry (physAddr flags : ℕ) : ℕ :=
  let e := physAddr ||| ptePresent ||| pteUser
  let e := if flags &&& memWrite ≠ 0 then e ||| pteWrite else e
  if flags &&& memExec = 0 then e ||| pteNx else e

/-- `mm_map_page`. -/
def mmMapPage (kmalloc : PageAllocator) (s : Mm) (pml4 virtAddr physAddr flags : ℕ) : Mm :=
  match ensureTable kmalloc s pml4 (pml4Index virtAddr) with
  | (s, pdpt) =>
    match ensureTable kmalloc s pdpt (pdptIndex virtAddr) with
    | (s, pd) =>
      match ensureTable kmalloc s pd (pdIndex virtAddr) with
      | (s, pt) => s.store (pt + 8 * ptIndex virtAddr) (pageEntry physAddr flags)

/-- The table that an entry leads to, if it is present. -/
def nextTable (mem : ℕ → ℕ) (table i : ℕ) : Option ℕ :=
  if present (entry mem table i) then some (tableOf (entry mem table i)) else none

/-- The table of the first level for a page, if the tables lead to one. -/
def findPt (mem : ℕ → ℕ) (pml4 virtAddr : ℕ) : Option ℕ :=
  (nextTable mem pml4 (pml4Index virtAddr)).bind fun pdpt =>
    (nextTable mem pdpt (pdptIndex virtAddr)).bind fun pd => nextTable mem pd (pdIndex virtAddr)

/-- `mm_unmap_page`. -/
def mmUnmapPage (s : Mm) (pml4 virtAddr : ℕ) : Mm :=
  match findPt s.mem pml4 virtAddr with
  | none => s
  | some pt => s.store (pt + 8 * ptIndex virtAddr) 0

/-- What the tables make of an address. -/
structure Translation where
  /-- The physical page. -/
  frame : ℕ
  /-- Every level allows writing. -/
  write : Bool
  /-- Every level allows the user. -/
  user : Bool
  /-- Some level forbids execution. -/
  noExec : Bool
  deriving DecidableEq

/-- The entries of the four levels for an address, if all are present. -/
def walkEntries (mem : ℕ → ℕ) (pml4 virtAddr : ℕ) : Option (List ℕ) :=
  (nextTable mem pml4 (pml4Index virtAddr)).bind fun pdpt =>
    (nextTable mem pdpt (pdptIndex virtAddr)).bind fun pd =>
      (nextTable mem pd (pdIndex virtAddr)).bind fun pt =>
        if present (entry mem pt (ptIndex virtAddr)) then
          some [entry mem pml4 (pml4Index virtAddr), entry mem pdpt (pdptIndex virtAddr),
            entry mem pd (pdIndex virtAddr), entry mem pt (ptIndex virtAddr)]
        else none

/-- The walk through the four levels. -/
def translate (mem : ℕ → ℕ) (pml4 virtAddr : ℕ) : Option Translation :=
  (walkEntries mem pml4 virtAddr).map fun es =>
    { frame := (es.getLastD 0) / 2 ^ 12 % 2 ^ 40
      write := es.all fun e => e &&& pteWrite != 0
      user := es.all fun e => e &&& pteUser != 0
      noExec := es.any fun e => e &&& pteNx != 0 }

/-- What an address is in an address space. -/
def translateIn (s : Mm) (a virtAddr : ℕ) : Option Translation :=
  (s.spaces a).bind fun space => translate s.mem space.pml4 virtAddr

/-! ### Regions -/

/-- The first region that an address is in. -/
def conflict (regions : List MemoryRegion) (addr : ℕ) : Option MemoryRegion :=
  regions.find? fun r => decide (r.start ≤ addr ∧ addr < r.end)

/-- The search of `mm_alloc_region` for an address in no region, for a number of restarts. -/
def findAddr (regions : List MemoryRegion) : ℕ → ℕ → ℕ
  | 0, addr => addr
  | restarts + 1, addr =>
    match conflict regions addr with
    | none => addr
    | some r => findAddr regions restarts r.end

/-- A loop that unmaps `n` pages. -/
def unmapPages (pml4 start : ℕ) : ℕ → Mm → Mm
  | 0, s => s
  | n + 1, s => mmUnmapPage (unmapPages pml4 start n s) pml4 (wrap 64 (start + n * pageSize))

/-- The loop that undoes what `mm_alloc_region` did for `n` pages. -/
def rollback (pml4 addr : ℕ) : ℕ → Mm → Mm
  | 0, s => s
  | n + 1, s =>
    -- `old_phys` is 0: the page that was allocated is not known any more
    mmUnmapPage (pmFreePage (rollback pml4 addr n s) 0) pml4 (wrap 64 (addr + n * pageSize))

/-- The loop of `mm_alloc_region` that allocates and maps, with `left` pages to come and
`done` pages behind it: whether it got to the end. -/
def allocPages (kmalloc : PageAllocator) (pml4 addr flags : ℕ) : ℕ → ℕ → Mm → Mm × Bool
  | 0, _, s => (s, true)
  | left + 1, done, s =>
    match pmAllocPage s with
    | (s, physAddr) =>
      if physAddr = 0 then (rollback pml4 addr done s, false)
      else
        allocPages kmalloc pml4 addr flags left (done + 1)
          (mmMapPage kmalloc s pml4 (wrap 64 (addr + done * pageSize)) physAddr flags)

/-- The pages that a region of some size has. -/
def sizePages (size : ℕ) : ℕ := pageAlign size / pageSize

/-- Where `mm_alloc_region` puts a region. -/
def regionAddr (space : MemorySpace) : ℕ :=
  findAddr space.regions space.regions.length space.heapEnd

/-- The last part of `mm_alloc_region`: the region is recorded. -/
def recordRegion (kmalloc : PageAllocator) (s : Mm) (a : ℕ) (space : MemorySpace)
    (addr size flags : ℕ) : Mm :=
  s.tick.setSpace a (some { space with
    -- what is written to a record at `NULL` is not kept: the list ends there
    regions := if kmalloc s.allocs sizeofMemoryRegion = 0 then []
      else ⟨addr, wrap 64 (addr + size), flags⟩ :: space.regions
    heapEnd := wrap 64 (addr + size) })

/-- `mm_alloc_region`. -/
def mmAllocRegion (kmalloc : PageAllocator) (s : Mm) (a : ℕ) (space : MemorySpace)
    (size flags : ℕ) : Mm × ℕ :=
  let addr := regionAddr space
  match allocPages kmalloc space.pml4 addr flags (sizePages size) 0 s with
  | (s, false) => (s, 0)
  | (s, true) => (recordRegion kmalloc s a space addr (pageAlign size) flags, addr)

/-- How many pages the loops over a region visit. -/
def MemoryRegion.pages (r : MemoryRegion) : ℕ := (r.end - r.start + (pageSize - 1)) / pageSize

/-- The region that `mm_free_region` is asked for. -/
def isRegion (addr size : ℕ) (r : MemoryRegion) : Bool :=
  decide (r.start = addr ∧ r.end = wrap 64 (addr + size))

/-- `mm_free_region`. -/
def mmFreeRegion (s : Mm) (a : ℕ) (space : MemorySpace) (addr size : ℕ) : Mm :=
  match space.regions.find? (isRegion addr size) with
  | none => s
  | some r =>
    unmapPages space.pml4 r.start r.pages
      (s.setSpace a (some { space with regions := space.regions.eraseP (isRegion addr size) }))

/-! ### Address spaces -/

/-- The last part of `mm_create_space`: the table of the fourth level has the kernel's
entries in its first half, and there are no regions. -/
def addSpace (s : Mm) (pml4 : ℕ) : Mm :=
  { s with
    mem := fillTable s.mem pml4 fun i => if i < 256 then s.kernelPml4 i else 0
    spaces := Function.update s.spaces s.nextSpace
      (some ⟨pml4, [], 0x100000000, 0x100000000, 0x7FFFFF000000, 0x7FFFFF000000⟩)
    nextSpace := s.nextSpace + 1 }

/-- `mm_create_space`: the new address space, or `NULL`. -/
def mmCreateSpace (kmalloc : PageAllocator) (s : Mm) : Mm × Option ℕ :=
  if kmalloc s.allocs sizeofMemorySpace = 0 then (s.tick, none)
  else
    let pml4 := kmalloc s.tick.allocs pageSize
    if pml4 = 0 then (s.tick.tick, none) else (addSpace s.tick.tick pml4, some s.nextSpace)

/-- `mm_destroy_space`. -/
def mmDestroySpace (s : Mm) (a : ℕ) (space : MemorySpace) : Mm :=
  (space.regions.foldl (fun s r => unmapPages space.pml4 r.start r.pages s) s).setSpace a none

/-! ### Initialisation -/

/-- A turn of the loop of `init_page_tables` over the first four entries of the table of
the third level. -/
def initPd (kmalloc : PageAllocator) (pdpt : ℕ) (s : Mm) (j : ℕ) : Mm :=
  match newTable kmalloc s with
  | (s, pd) =>
    let s := s.store (pdpt + 8 * j) (pd ||| ptePresent ||| pteWrite)
    { s with mem := fillTable s.mem pd fun k =>
        (j * 512 * pageSize + k * pageSize) ||| ptePresent ||| pteWrite ||| pteGlobal }

/-- `init_page_tables`. -/
def initPageTables (kmalloc : PageAllocator) (s : Mm) : Mm :=
  match newTable kmalloc s with
  | (s, pdpt) =>
    (List.range 4).foldl (initPd kmalloc pdpt)
      { s with kernelPml4 := Function.update s.kernelPml4 0 (pdpt ||| ptePresent ||| pteWrite) }

/-- The static variables before `mm_init`. -/
def mmEmpty (mem : ℕ → ℕ) : Mm :=
  ⟨fun _ => false, 0, 0, 0, fun _ => 0, mem, fun _ => none, 0, 0⟩

/-- `mm_init`, after the kernel heap was set up; it panics if there is no memory for the
bitmap. -/
def mmInit (kmalloc : PageAllocator) (mem : ℕ → ℕ) (kernelHeapEnd : ℕ) : Option Mm :=
  let s := initPageTables kmalloc (mmEmpty mem)
  if kmalloc s.allocs ((0x10000000 / pageSize + 7) / 8) = 0 then none
  else some (pmInitRegion s.tick 0x100000 0x10000000 kernelHeapEnd)

/-! ### Runs -/

/-- A call on an address space. -/
inductive SpaceCall where
  /-- `mm_map_page(space, virt_addr, phys_addr, flags)`. -/
  | map (virtAddr physAddr flags : ℕ)
  /-- `mm_unmap_page(space, virt_addr)`. -/
  | unmap (virtAddr : ℕ)
  /-- `mm_alloc_region(space, size, flags)`. -/
  | alloc (size flags : ℕ)
  /-- `mm_free_region(space, addr, size)`. -/
  | free (addr size : ℕ)

/-- A call. -/
inductive MmCall where
  /-- `mm_create_space()`. -/
  | create
  /-- A call on an address space. -/
  | on (a : ℕ) (call : SpaceCall)
  /-- `mm_destroy_space(space)`. -/
  | destroy (a : ℕ)

/-- What a call on an address space does. -/
def spaceCall (kmalloc : PageAllocator) (s : Mm) (a : ℕ) (space : MemorySpace) : SpaceCall → Mm
  | .map virtAddr physAddr flags => mmMapPage kmalloc s space.pml4 virtAddr physAddr flags
  | .unmap virtAddr => mmUnmapPage s space.pml4 virtAddr
  | .alloc size flags => (mmAllocRegion kmalloc s a space size flags).1
  | .free addr size => mmFreeRegion s a space addr size

/-- A step of a run: `none` if the address space is not there. -/
def mmStep (kmalloc : PageAllocator) (s : Mm) : MmCall → Option Mm
  | .create => some (mmCreateSpace kmalloc s).1
  | .on a call => (s.spaces a).map fun space => spaceCall kmalloc s a space call
  | .destroy a => (s.spaces a).map fun space => mmDestroySpace s a space

/-! ### A start -/

/-- The addresses that the heap returns for requests, one after the other. -/
def kmallocAll : Heap → List ℕ → Option (List ℕ)
  | _, [] => some []
  | h, size :: sizes =>
    (kmalloc h size).bind fun (h, ptr) => (kmallocAll h sizes).map (ptr :: ·)

/-- The addresses that `kmalloc` returns where the kernel image ends at 2 MB: for the five
tables of `init_page_tables` and the bitmap, for the records and tables of two address
spaces, and for a region. -/
def bootAddresses : List ℕ :=
  [0x200018, 0x201030, 0x202048, 0x203060, 0x204078, 0x205090, 0x2070A8, 0x2070F0, 0x208108,
    0x208150, 0x209168]

example : kmallocAll (heapInit (fun _ => 0) 0x200000)
    [4096, 4096, 4096, 4096, 4096, 8192, 48, 4096, 48, 4096, 64] = some bootAddresses := by
  decide +kernel

/-- That `kmalloc`. -/
def bootAllocator : PageAllocator := fun n _ => bootAddresses.getD n 0

/-- What `mm_init` makes of it, with memory that is zero. -/
def bootedMm : Mm := (mmInit bootAllocator (fun _ => 0) 0x300000).getD (mmEmpty fun _ => 0)

theorem bootedMm_eq : mmInit bootAllocator (fun _ => 0) 0x300000 = some bootedMm := rfl

/-! ### What the operations are made of -/

variable {kmalloc : PageAllocator} {s : Mm} {a b : ℕ}

namespace Mm

theorem store_self (s : Mm) (a v : ℕ) : (s.store a v).mem a = v := Function.update_self ..

theorem store_of_ne (s : Mm) (v : ℕ) (h : b ≠ a) : (s.store a v).mem b = s.mem b :=
  Function.update_of_ne h ..

theorem setSpace_self (s : Mm) (a : ℕ) (space : Option MemorySpace) :
    (s.setSpace a space).spaces a = space := Function.update_self ..

theorem setSpace_of_ne (s : Mm) (space : Option MemorySpace) (h : b ≠ a) :
    (s.setSpace a space).spaces b = s.spaces b := Function.update_of_ne h ..

theorem addSpace_self (s : Mm) (pml4 : ℕ) :
    (addSpace s pml4).spaces s.nextSpace =
      some ⟨pml4, [], 0x100000000, 0x100000000, 0x7FFFFF000000, 0x7FFFFF000000⟩ :=
  Function.update_self ..

theorem addSpace_of_ne {s : Mm} (pml4 : ℕ) (h : b ≠ s.nextSpace) :
    (addSpace s pml4).spaces b = s.spaces b := Function.update_of_ne h ..

end Mm

/-- `mm_map_page`, level by level. -/
theorem mmMapPage_eq (kmalloc : PageAllocator) (s : Mm) (pml4 virtAddr physAddr flags : ℕ) :
    ∃ r₁ r₂ r₃, r₁ = ensureTable kmalloc s pml4 (pml4Index virtAddr) ∧
      r₂ = ensureTable kmalloc r₁.1 r₁.2 (pdptIndex virtAddr) ∧
        r₃ = ensureTable kmalloc r₂.1 r₂.2 (pdIndex virtAddr) ∧
          mmMapPage kmalloc s pml4 virtAddr physAddr flags =
            r₃.1.store (r₃.2 + 8 * ptIndex virtAddr) (pageEntry physAddr flags) :=
  ⟨_, _, _, rfl, rfl, rfl, rfl⟩

/-- `mm_unmap_page`: there is no table for the page, or its entry is cleared. -/
theorem mmUnmapPage_cases (s : Mm) (pml4 virtAddr : ℕ) :
    (findPt s.mem pml4 virtAddr = none ∧ mmUnmapPage s pml4 virtAddr = s) ∨
      ∃ pt, findPt s.mem pml4 virtAddr = some pt ∧
        mmUnmapPage s pml4 virtAddr = s.store (pt + 8 * ptIndex virtAddr) 0 := by
  unfold mmUnmapPage
  cases findPt s.mem pml4 virtAddr with
  | none => exact .inl ⟨rfl, rfl⟩
  | some pt => exact .inr ⟨pt, rfl, rfl⟩

/-- An address space is made, or there is no memory for it. -/
theorem mmCreateSpace_cases (kmalloc : PageAllocator) (s : Mm) :
    (∃ t, (t = s.tick ∨ t = s.tick.tick) ∧ mmCreateSpace kmalloc s = (t, none)) ∨
      (kmalloc s.tick.allocs pageSize ≠ 0 ∧
        mmCreateSpace kmalloc s =
          (addSpace s.tick.tick (kmalloc s.tick.allocs pageSize), some s.nextSpace)) := by
  unfold mmCreateSpace
  split
  · exact .inl ⟨s.tick, .inl rfl, rfl⟩
  dsimp only
  split
  · exact .inl ⟨s.tick.tick, .inr rfl, rfl⟩
  · rename_i hpml4
    exact .inr ⟨hpml4, rfl⟩

end PrismaticOS.Kernel
