import PrismaticOS.Library.Memory
import PrismaticOS.Library.Words
import PrismaticOS.Library.Runs

/-!
# The kernel heap

`kmalloc`, `kfree` and `krealloc` of `kernel/mm.c`. The heap is a piece of the
kernel's memory between `kernel_heap_start` and `kernel_heap_end`; blocks are carved
from `kernel_heap_current` upwards, and every block ever carved is on the list
`heap_free_list`, in use or not. A block is a header, `struct heap_block`, and the
bytes after it, which are the caller's.

## The model

The headers live in byte memory, where the code puts them: a size in 8 bytes, a
flag in one, and a link in 8. So a block that is laid over another one reads and
destroys what is really there. Addresses and sizes are 64-bit words.

`findBlock` is the search loop of `kmalloc`. It is given as many steps as there are
addresses; a walk that takes more visits some block twice and never ends, and then
the call does not return (`none`).

A run (`heapStep`) keeps, beside the heap, the pointers its callers hold: those
`kmalloc` and `krealloc` returned and nobody has freed since. `kfree` and `krealloc`
are called with such a pointer only.
-/

namespace PrismaticOS.Kernel

open PrismaticOS.Library

/-! ### Headers -/

/-- `sizeof(struct heap_block)`: a `size_t`, a `bool` padded to 8 bytes, a pointer. -/
@[simp] def sizeofHeapBlock : ℕ := 24

/-- `block->size`. -/
def blockSize (m : Mem) (block : ℕ) : ℕ := loadLE m block 8

/-- `block->used`. -/
def blockUsed (m : Mem) (block : ℕ) : Bool := loadLE m (block + 8) 1 != 0

/-- `block->next`. -/
def blockNext (m : Mem) (block : ℕ) : ℕ := loadLE m (block + 16) 8

/-- `block->size = v`. -/
def setBlockSize (m : Mem) (block v : ℕ) : Mem := storeLE m block 8 v

/-- `block->used = u`. -/
def setBlockUsed (m : Mem) (block : ℕ) (u : Bool) : Mem := storeLE m (block + 8) 1 u.toNat

/-- `block->next = v`. -/
def setBlockNext (m : Mem) (block v : ℕ) : Mem := storeLE m (block + 16) 8 v

/-! ### The allocator -/

/-- The static variables of the heap, and the memory it lives in. -/
structure Heap where
  /-- The kernel's memory. -/
  mem : Mem
  /-- `heap_free_list`. -/
  heapFreeList : ℕ
  /-- `kernel_heap_start`. -/
  kernelHeapStart : ℕ
  /-- `kernel_heap_end`. -/
  kernelHeapEnd : ℕ
  /-- `kernel_heap_current`. -/
  kernelHeapCurrent : ℕ

/-- `size = (size + 7) & ~7`. -/
def align8 (size : ℕ) : ℕ := wrap 64 (size + 7) / 8 * 8

/-- The search loop of `kmalloc` from `block` on, for a number of steps: the first
block not in use that is large enough, or `NULL` at the end of the list. -/
def findBlock (m : Mem) (size : ℕ) : ℕ → ℕ → Option ℕ
  | 0, _ => none
  | steps + 1, block =>
    if block = 0 then some 0
    else if !blockUsed m block && size ≤ blockSize m block then some block
    else findBlock m size steps (blockNext m block)

/-- The rest of a block that is too large becomes a block of its own, after it. -/
def splitBlock (m : Mem) (block size : ℕ) : Mem :=
  let newBlock := wrap 64 (block + sizeofHeapBlock + size)
  let m := setBlockSize m newBlock (wsub 64 (wsub 64 (blockSize m block) size) sizeofHeapBlock)
  let m := setBlockUsed m newBlock false
  let m := setBlockNext m newBlock (blockNext m block)
  let m := setBlockSize m block size
  setBlockNext m block newBlock

/-- Take a block that was found. -/
def takeBlock (m : Mem) (block size : ℕ) : Mem :=
  let m := setBlockUsed m block true
  if wrap 64 (size + sizeofHeapBlock) < blockSize m block then splitBlock m block size else m

/-- Carve a new block at `kernel_heap_current`. -/
def carveBlock (h : Heap) (size : ℕ) : Heap :=
  let block := h.kernelHeapCurrent
  let m := setBlockSize h.mem block size
  let m := setBlockUsed m block true
  { h with
    mem := setBlockNext m block h.heapFreeList
    heapFreeList := block
    kernelHeapCurrent := wrap 64 (h.kernelHeapCurrent + (size + sizeofHeapBlock)) }

/-- The test for the end of the heap, in pointer arithmetic. -/
def heapFull (h : Heap) (size : ℕ) : Prop :=
  h.kernelHeapEnd < wrap 64 (h.kernelHeapCurrent + size + sizeofHeapBlock)

instance (h : Heap) (size : ℕ) : Decidable (heapFull h size) :=
  inferInstanceAs (Decidable (_ < _))

/-- `kmalloc`: the heap after the call and the pointer returned. -/
def kmalloc (h : Heap) (size : ℕ) : Option (Heap × ℕ) :=
  if size = 0 then some (h, 0)
  else
    (findBlock h.mem (align8 size) addresses h.heapFreeList).map fun block =>
      if block ≠ 0 then
        ({ h with mem := takeBlock h.mem block (align8 size) }, wrap 64 (block + sizeofHeapBlock))
      else if heapFull h (align8 size) then (h, 0)
      else (carveBlock h (align8 size), wrap 64 (h.kernelHeapCurrent + sizeofHeapBlock))

/-- The block a pointer belongs to. -/
def blockOf (ptr : ℕ) : ℕ := wsub 64 ptr sizeofHeapBlock

/-- The freed block swallows the next one on the list. -/
def mergeNext (m : Mem) (block : ℕ) : Mem :=
  let m := setBlockSize m block
    (wrap 64 (blockSize m block + (blockSize m (blockNext m block) + sizeofHeapBlock)))
  setBlockNext m block (blockNext m (blockNext m block))

/-- `kfree`. -/
def kfree (h : Heap) (ptr : ℕ) : Heap :=
  if ptr = 0 then h
  else
    let block := blockOf ptr
    let m := setBlockUsed h.mem block false
    if blockNext m block ≠ 0 ∧ blockUsed m (blockNext m block) = false then
      { h with mem := mergeNext m block }
    else { h with mem := m }

/-- `krealloc`: the heap after the call and the pointer returned. -/
def krealloc (h : Heap) (ptr newSize : ℕ) : Option (Heap × ℕ) :=
  if ptr = 0 then kmalloc h newSize
  else if newSize = 0 then some (kfree h ptr, 0)
  else if newSize ≤ blockSize h.mem (blockOf ptr) then some (h, ptr)
  else
    (kmalloc h newSize).map fun (h', newPtr) =>
      if newPtr = 0 then (h', 0)
      else
        let copySize :=
          if blockSize h'.mem (blockOf ptr) < newSize then blockSize h'.mem (blockOf ptr)
          else newSize
        (kfree { h' with mem := copyBytes h'.mem newPtr ptr copySize } ptr, newPtr)

/-- The page size. -/
@[simp] def pageSize : ℕ := 4096

/-- What `mm_init` sets up of the heap: it is empty and starts at the first page
after the kernel image, computed in 32 bits. -/
def heapInit (mem : Mem) (kernelEnd : ℕ) : Heap where
  mem := mem
  heapFreeList := 0
  kernelHeapStart := wrap 32 (wrap 32 kernelEnd + (pageSize - 1)) / pageSize * pageSize
  kernelHeapEnd := wrap 32 (wrap 32 kernelEnd + (pageSize - 1)) / pageSize * pageSize + 0x100000
  kernelHeapCurrent := wrap 32 (wrap 32 kernelEnd + (pageSize - 1)) / pageSize * pageSize

/-! ### Runs -/

/-- A call of the allocator. -/
inductive HeapCall where
  /-- `kmalloc(size)`. -/
  | kmalloc (size : ℕ)
  /-- `kfree(ptr)`. -/
  | kfree (ptr : ℕ)
  /-- `krealloc(ptr, newSize)`. -/
  | krealloc (ptr newSize : ℕ)
  deriving DecidableEq

/-- The heap, and the pointers that are live. -/
structure HeapRun where
  /-- The heap. -/
  heap : Heap
  /-- The pointers returned and not freed since. -/
  live : List ℕ

/-- A pointer is added to the live ones, unless it is `NULL`. -/
def addLive (ptr : ℕ) (live : List ℕ) : List ℕ := if ptr = 0 then live else ptr :: live

/-- A call: `none` if it is given a pointer that is not live, or does not return. -/
def heapStep (r : HeapRun) : HeapCall → Option HeapRun
  | .kmalloc size => (kmalloc r.heap size).map fun (h, p) => ⟨h, addLive p r.live⟩
  | .kfree ptr => if ptr ∈ r.live then some ⟨kfree r.heap ptr, r.live.erase ptr⟩ else none
  | .krealloc ptr newSize =>
    if ptr ∈ r.live then
      (krealloc r.heap ptr newSize).map fun (h, p) =>
        -- `NULL` for a size that is not 0 leaves the old block with its caller
        ⟨h, if p = 0 ∧ newSize ≠ 0 then r.live else addLive p (r.live.erase ptr)⟩
    else none

/-- The run starts in the heap `mm_init` sets up, with nothing live. -/
def heapRunInit (mem : Mem) (kernelEnd : ℕ) : HeapRun := ⟨heapInit mem kernelEnd, []⟩

end PrismaticOS.Kernel
