import Mathlib.Data.List.Basic
import PrismaticOS.Library.Cells
import PrismaticOS.Library.Runs

/-!
# The allocator of the C library

`malloc`, `free` and `realloc` of `libc/src/stdlib/malloc.c`.

## The model

The arena, the arrays of free blocks and the headers of large blocks are in the memory that
`sbrk` gave, as in the program; the static variables are fields of the state. `size_t` has 64
bits. Addresses have no bound, so that an `sbrk` that never fails has a model too; below `2 ^ 64`
the cells of memory are bytes.

`sbrk` either fails or moves the break and returns where it was. Which of its calls fail is a
parameter, and so is what memory holds before anything is written to it.

`free` can call itself, through `free_to_size_class` and `realloc`. It gets the number of calls
of `free` that the stack has room for; `none` is a call that does not return: there was no more
room, or the program read through the `NULL` that stands for the arena before there is one.

A run keeps the blocks that are live: what was asked for, and whether the block was taken from a
size class or straight from `sbrk`. The program calls `free` and `realloc` with live blocks, and
between the calls it writes to them.
-/

namespace PrismaticOS.Libc

open PrismaticOS.Library

/-! ### The allocator -/

/-- `NUM_SIZE_CLASSES`. -/
def numSizeClasses : ℕ := 32

/-- `MIN_SIZE_CLASS`. -/
def minSizeClass : ℕ := 8

/-- `MAX_SMALL_SIZE`. -/
def maxSmallSize : ℕ := 4096

/-- `BLOCK_MAGIC`. -/
def blockMagic : ℕ := 0xDEADBEEF

/-- The size of a chunk. -/
def chunkBytes : ℕ := 64 * 1024

/-- A `size_class_t`. Pointers are addresses, and `NULL` is 0. -/
structure SizeClass where
  /-- `size`. -/
  size : ℕ
  /-- `free_list`. -/
  freeList : ℕ
  /-- `free_count`. -/
  freeCount : ℕ
  /-- `arena`. -/
  arena : ℕ

/-- The static variables, memory and the break. -/
structure Allocator where
  /-- Memory. -/
  memory : Cells
  /-- The break: where the next memory from `sbrk` begins. -/
  brk : ℕ
  /-- How often `sbrk` was called. -/
  sbrks : ℕ
  /-- `main_arena`. -/
  mainArena : ℕ
  /-- `size_classes`; the elements from `NUM_SIZE_CLASSES` on are not used. -/
  sizeClasses : ℕ → SizeClass
  /-- `allocator_initialized`. -/
  initialized : Bool

/-- Before the first call. -/
def uninitialized (memory : Cells) (brk : ℕ) : Allocator :=
  ⟨memory, brk, 0, 0, fun _ => ⟨0, 0, 0, 0⟩, false⟩

/-- Which calls of `sbrk` give memory: the `i`-th, for `n` bytes. -/
abbrev Supply := ℕ → ℕ → Bool

/-- The word at an address. -/
def Allocator.load (s : Allocator) (a : ℕ) : ℕ := loadWord s.memory a

/-- A word is written. -/
def Allocator.store (s : Allocator) (a v : ℕ) : Allocator :=
  { s with memory := storeWord s.memory a v }

/-- A size class is changed. -/
def Allocator.setClass (s : Allocator) (i : ℕ) (sc : SizeClass) : Allocator :=
  { s with sizeClasses := fun j => if j = i then sc else s.sizeClasses j }

section
variable (s : Allocator) (a v i : ℕ) (sc : SizeClass)

@[simp] theorem store_brk : (s.store a v).brk = s.brk := rfl

@[simp] theorem store_sbrks : (s.store a v).sbrks = s.sbrks := rfl

@[simp] theorem store_mainArena : (s.store a v).mainArena = s.mainArena := rfl

@[simp] theorem store_sizeClasses : (s.store a v).sizeClasses = s.sizeClasses := rfl

@[simp] theorem store_initialized : (s.store a v).initialized = s.initialized := rfl

@[simp] theorem setClass_memory : (s.setClass i sc).memory = s.memory := rfl

@[simp] theorem setClass_brk : (s.setClass i sc).brk = s.brk := rfl

@[simp] theorem setClass_sbrks : (s.setClass i sc).sbrks = s.sbrks := rfl

@[simp] theorem setClass_mainArena : (s.setClass i sc).mainArena = s.mainArena := rfl

@[simp] theorem setClass_initialized : (s.setClass i sc).initialized = s.initialized := rfl

@[simp] theorem setClass_self : (s.setClass i sc).sizeClasses i = sc := if_pos rfl

theorem setClass_ne {j : ℕ} (h : j ≠ i) : (s.setClass i sc).sizeClasses j = s.sizeClasses j :=
  if_neg h

/-- What is stored is read back. -/
@[simp] theorem load_store : (s.store a v).load a = v := loadWord_storeWord _ _ _

/-- A store is not seen by a load of other cells. -/
theorem load_store_out {b : ℕ} (h : b + 8 ≤ a ∨ a + 8 ≤ b) : (s.store a v).load b = s.load b :=
  loadWord_storeWord_out h

@[simp] theorem load_setClass : (s.setClass i sc).load a = s.load a := rfl

end

/-- `arena->chunks`. -/
def Allocator.chunks (s : Allocator) (arena : ℕ) : ℕ := s.load (arena + 8)

/-- `arena->chunk_size`. -/
def Allocator.chunkSize (s : Allocator) (arena : ℕ) : ℕ := s.load (arena + 16)

/-- `arena->used`. -/
def Allocator.used (s : Allocator) (arena : ℕ) : ℕ := s.load (arena + 24)

/-- The word before a block, `header->magic`, is `BLOCK_MAGIC`. -/
def Allocator.HasMagic (s : Allocator) (ptr : ℕ) : Prop := s.load (ptr - 8) = blockMagic

instance (s : Allocator) (ptr : ℕ) : Decidable (s.HasMagic ptr) :=
  inferInstanceAs (Decidable (_ = _))

/-- The sizes that `init_size_classes` computes. -/
def classSize : ℕ → ℕ
  | 0 => minSizeClass
  | i + 1 => if classSize i < maxSmallSize then classSize i * 2 else classSize i + maxSmallSize

/-- `init_size_classes`. -/
def initSizeClasses (s : Allocator) : Allocator :=
  { s with sizeClasses := fun i => ⟨classSize i, 0, 0, s.mainArena⟩ }

section
variable (supply : Supply)

/-- `sbrk`: the memory, if there is any. -/
def sbrk (s : Allocator) (n : ℕ) : Allocator × Option ℕ :=
  if supply s.sbrks n then ({ s with brk := s.brk + n, sbrks := s.sbrks + 1 }, some s.brk)
  else ({ s with sbrks := s.sbrks + 1 }, none)

/-- `init_allocator`. -/
def initAllocator (s : Allocator) : Allocator :=
  if s.initialized then s
  else
    match sbrk supply s 32 with
    | (s, none) => { s with mainArena := 2 ^ 64 - 1 }
    | (s, some arena) =>
      let s := { s with mainArena := arena }
      let s := (((s.store arena 0).store (arena + 8) 0).store (arena + 16) 0).store (arena + 24) 0
      { initSizeClasses s with initialized := true }

/-- `find_size_class`. -/
def findSizeClass (s : Allocator) (size : ℕ) : Option ℕ :=
  (List.range numSizeClasses).find? fun i => size ≤ (s.sizeClasses i).size

/-- The part of `alloc_from_size_class` that allocates a new chunk if one is needed, and whether
there is one then. -/
def ensureChunk (s : Allocator) (arena : ℕ) : Allocator × Bool :=
  if s.chunks arena = 0 ∨ s.chunkSize arena ≤ s.used arena then
    match sbrk supply s chunkBytes with
    | (s, none) => (s, false)
    | (s, some chunk) =>
      (((s.store (arena + 8) chunk).store (arena + 16) chunkBytes).store (arena + 24) 0, true)
  else (s, true)

/-- `alloc_from_size_class`: the allocator and the pointer. -/
def allocFromSizeClass (s : Allocator) (i : ℕ) : Allocator × ℕ :=
  let sc := s.sizeClasses i
  if sc.freeList ≠ 0 ∧ 0 < sc.freeCount then
    (s.setClass i { sc with freeCount := sc.freeCount - 1 },
      s.load (sc.freeList + 8 * (sc.freeCount - 1)))
  else
    match ensureChunk supply s sc.arena with
    | (s, false) => (s, 0)
    | (s, true) =>
      (s.store (sc.arena + 24) (s.used sc.arena + sc.size), s.chunks sc.arena + s.used sc.arena)

/-- The size that `alloc_large` asks for: up to the next page, in 64 bits. -/
def pageRound (size : ℕ) : ℕ := (size + 4095) % 2 ^ 64 / 4096 * 4096

/-- `alloc_large`. -/
def allocLarge (s : Allocator) (size : ℕ) : Allocator × ℕ :=
  match sbrk supply s (pageRound size) with
  | (s, none) => (s, 0)
  | (s, some ptr) => ((s.store ptr (pageRound size)).store (ptr + 8) blockMagic, ptr + 16)

/-- `malloc`. -/
def malloc (s : Allocator) (size : ℕ) : Allocator × ℕ :=
  if size = 0 then (s, 0)
  else
    let s := initAllocator supply s
    if size ≤ maxSmallSize then
      match findSizeClass s size with
      | some i => allocFromSizeClass supply s i
      | none => allocLarge supply s size
    else allocLarge supply s size

/-- The size that `realloc` takes for the one of the old block. -/
def oldSize (s : Allocator) (ptr : ℕ) : ℕ :=
  if s.HasMagic ptr then (s.load (ptr - 16) + 2 ^ 64 - 16) % 2 ^ 64
  else
    match findSizeClass s 0 with
    | some i => (s.sizeClasses i).size
    | none => 0

/-- The part of `realloc` that allocates a new block and copies the data, and the new block. -/
def moveBlock (s : Allocator) (ptr newSize : ℕ) : Allocator × ℕ :=
  match malloc supply s newSize with
  | (s', newPtr) =>
    if newPtr = 0 then (s', 0)
    else ({ s' with memory := copyCells s'.memory newPtr ptr (min (oldSize s ptr) newSize) }, newPtr)

/-- `realloc`, with the `free` that it calls. -/
def reallocWith (free : Allocator → ℕ → Option Allocator) (s : Allocator) (ptr newSize : ℕ) :
    Option (Allocator × ℕ) :=
  if ptr = 0 then some (malloc supply s newSize)
  else if newSize = 0 then (free s ptr).map fun s => (s, 0)
  else if newSize ≤ oldSize s ptr then some (s, ptr)
  else
    match moveBlock supply s ptr newSize with
    | (s, newPtr) =>
      if newPtr = 0 then some (s, 0) else (free s ptr).map fun s => (s, newPtr)

/-- `sc->free_list[sc->free_count++] = ptr`. -/
def pushFree (s : Allocator) (ptr i : ℕ) : Allocator :=
  let sc := s.sizeClasses i
  (s.store (sc.freeList + 8 * sc.freeCount) ptr).setClass i { sc with freeCount := sc.freeCount + 1 }

/-- `free_to_size_class`, with the `free` that `realloc` calls. -/
def freeToSizeClass (free : Allocator → ℕ → Option Allocator) (s : Allocator) (ptr i : ℕ) :
    Option Allocator :=
  let sc := s.sizeClasses i
  if sc.freeCount < 1024 then
    if sc.freeCount % 64 = 0 then
      (reallocWith supply free s sc.freeList ((sc.freeCount + 64) * 8)).map fun (s, newList) =>
        if newList = 0 then s
        else pushFree (s.setClass i { s.sizeClasses i with freeList := newList }) ptr i
    else some (pushFree s ptr i)
  else some s

/-- The class whose arena has the block in its chunk, as `free` looks for it. -/
def classOf (s : Allocator) (ptr : ℕ) : Option ℕ :=
  ((List.range numSizeClasses).find? fun i =>
    s.chunks (s.sizeClasses i).arena ≤ ptr ∧
      ptr < s.chunks (s.sizeClasses i).arena + s.chunkSize (s.sizeClasses i).arena).or
    (findSizeClass s 1)

/-- `free`, where the stack has room for `depth` calls of it. -/
def free : ℕ → Allocator → ℕ → Option Allocator
  | 0, _, _ => none
  | depth + 1, s, ptr =>
    if ptr = 0 then some s
    else if s.HasMagic ptr then some s
    else if (s.sizeClasses 0).arena = 0 then none
    else
      match classOf s ptr with
      | some i => freeToSizeClass supply (free depth) s ptr i
      | none => some s

/-- `realloc`. -/
def realloc (depth : ℕ) : Allocator → ℕ → ℕ → Option (Allocator × ℕ) :=
  reallocWith supply (free supply depth)

end

/-! ### Runs -/

/-- A live block. -/
structure Block where
  /-- Where it is. -/
  ptr : ℕ
  /-- How many bytes were asked for. -/
  size : ℕ
  /-- What `alloc_large` asked `sbrk` for, if the block is from there. -/
  large : Option ℕ
  deriving DecidableEq

/-- The allocator, and the live blocks. -/
structure Process where
  /-- The allocator. -/
  heap : Allocator
  /-- The live blocks. -/
  live : List Block

/-- What a program does. -/
inductive AllocCall where
  /-- `malloc(size)`. -/
  | malloc (size : ℕ)
  /-- `free(ptr)`. -/
  | free (ptr : ℕ)
  /-- `realloc(ptr, size)`. -/
  | realloc (ptr size : ℕ)
  /-- It writes a byte to the block at `ptr`. -/
  | write (ptr offset : ℕ) (byte : UInt8)

/-- The block that a call of `malloc` with the state `s` after it returned. -/
def newBlock (s : Allocator) (ptr size : ℕ) : Block :=
  ⟨ptr, size, if s.initialized ∧ size ≤ maxSmallSize then none else some (pageRound size)⟩

/-- The live block at an address. -/
def Process.block (p : Process) (ptr : ℕ) : Option Block := p.live.find? fun b => b.ptr = ptr

/-- What a call does. -/
def heapStep (supply : Supply) (depth : ℕ) (p : Process) : AllocCall → Option Process
  | .malloc size =>
    match malloc supply p.heap size with
    | (s, ptr) => some ⟨s, if ptr = 0 then p.live else newBlock s ptr size :: p.live⟩
  | .free ptr =>
    (p.block ptr).bind fun b =>
      (free supply depth p.heap ptr).map fun s => ⟨s, p.live.erase b⟩
  | .realloc ptr size =>
    (p.block ptr).bind fun b =>
      (realloc supply depth p.heap ptr size).map fun (s, newPtr) =>
        if newPtr = 0 then ⟨s, if size = 0 then p.live.erase b else p.live⟩
        else if newPtr = ptr then ⟨s, { b with size := size } :: p.live.erase b⟩
        else ⟨s, newBlock s newPtr size :: p.live.erase b⟩
  | .write ptr offset byte =>
    (p.block ptr).bind fun b =>
      if offset < b.size then
        some ⟨{ p.heap with memory := Function.update p.heap.memory (ptr + offset) byte.toNat },
          p.live⟩
      else none

/-- A program begins with no block. -/
def started (memory : Cells) (brk : ℕ) : Process := ⟨uninitialized memory brk, []⟩

end PrismaticOS.Libc
