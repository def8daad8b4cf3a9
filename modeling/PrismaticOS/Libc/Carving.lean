import PrismaticOS.Library.Ranges
import PrismaticOS.Libc.SizeClasses

/-!
# What `malloc` can do

The cases of `malloc`: a free block is taken from an array, a small block is cut off the chunk of
the arena, or a large one comes straight from `sbrk`.

## What is proved

* `malloc_cases` — which function `malloc` leaves the work to.
* `carve_cases` — a class without free blocks: there is no chunk to be had, the block is cut off
  the chunk there is, or off a new one.
* `large_cases` — a large block.
-/

namespace PrismaticOS.Libc

open PrismaticOS.Library

section
variable {supply : Supply} {s t : Allocator} {n i a v A : ℕ}

/-! ### The arena -/

@[simp] theorem used_store : (s.store (A + 24) v).used A = v := load_store _ _ _

@[simp] theorem chunks_store_used : (s.store (A + 24) v).chunks A = s.chunks A :=
  load_store_out _ _ _ (.inl (by omega))

@[simp] theorem chunkSize_store_used : (s.store (A + 24) v).chunkSize A = s.chunkSize A :=
  load_store_out _ _ _ (.inl (by omega))

/-- There is no chunk, or the one there is is used up. -/
def Allocator.NoRoom (s : Allocator) (A : ℕ) : Prop := s.chunks A = 0 ∨ s.chunkSize A ≤ s.used A

instance (s : Allocator) (A : ℕ) : Decidable (s.NoRoom A) := inferInstanceAs (Decidable (_ ∨ _))

/-- A call of `sbrk` without success. -/
def Allocator.refused (s : Allocator) : Allocator := { s with sbrks := s.sbrks + 1 }

/-- A call of `sbrk` that gave `n` bytes. -/
def Allocator.granted (s : Allocator) (n : ℕ) : Allocator :=
  { s with brk := s.brk + n, sbrks := s.sbrks + 1 }

/-- The arena has a new chunk. -/
def Allocator.withChunk (s : Allocator) (A : ℕ) : Allocator :=
  (((s.granted chunkBytes).store (A + 8) s.brk).store (A + 16) chunkBytes).store (A + 24) 0

@[simp] theorem withChunk_chunks : (s.withChunk A).chunks A = s.brk := by
  rw [Allocator.withChunk, chunks_store_used, Allocator.chunks,
    load_store_out _ _ _ (.inl (by omega)), load_store]

@[simp] theorem withChunk_chunkSize : (s.withChunk A).chunkSize A = chunkBytes := by
  rw [Allocator.withChunk, chunkSize_store_used, Allocator.chunkSize, load_store]

@[simp] theorem withChunk_used : (s.withChunk A).used A = 0 := used_store

@[simp] theorem withChunk_mainArena : (s.withChunk A).mainArena = s.mainArena := rfl

theorem withChunk_statics : Statics s (s.withChunk A) := ⟨rfl, rfl, rfl, Nat.le_add_right ..⟩

/-- Only the arena is written. -/
theorem withChunk_onlyIn : OnlyIn ⟨A, 32⟩ s.memory (s.withChunk A).memory := by
  have hfield : ∀ (m : Cells) k v, 8 ≤ k → k ≤ 24 →
      OnlyIn ⟨A, 32⟩ m (storeWord m (A + k) v) := fun m k v h₁ h₂ =>
    (onlyIn_storeWord m (A + k) v).mono ⟨Nat.le_add_right .., by simp only [Range.stop]; omega⟩
  exact (hfield _ 8 _ (by omega) (by omega)).trans
    ((hfield _ 16 _ (by omega) (by omega)).trans (hfield _ 24 _ (by omega) (by omega)))

/-! ### The cases -/

/-- There is no chunk to be had, there is one with room, or there is a new one. -/
theorem ensureChunk_cases (supply : Supply) (s : Allocator) (A : ℕ) :
    (s.NoRoom A ∧ supply s.sbrks chunkBytes = false ∧
      ensureChunk supply s A = (s.refused, false)) ∨
    (¬ s.NoRoom A ∧ ensureChunk supply s A = (s, true)) ∨
    (s.NoRoom A ∧ supply s.sbrks chunkBytes = true ∧
      ensureChunk supply s A = (s.withChunk A, true)) := by
  unfold ensureChunk
  split_ifs with hroom
  · rcases sbrk_cases supply s chunkBytes with ⟨hsupply, heq⟩ | ⟨hsupply, heq⟩
    · rw [heq]
      exact .inr (.inr ⟨hroom, hsupply, rfl⟩)
    · rw [heq]
      exact .inl ⟨hroom, hsupply, rfl⟩
  · exact .inr (.inl ⟨hroom, rfl⟩)

/-- **A class without free blocks.** -/
theorem carve_cases (supply : Supply) (hA : (s.sizeClasses i).arena = A)
    (h : (s.sizeClasses i).freeCount = 0) :
    (s.NoRoom A ∧ supply s.sbrks chunkBytes = false ∧
      allocFromSizeClass supply s i = (s.refused, 0)) ∨
    (¬ s.NoRoom A ∧ allocFromSizeClass supply s i =
      (s.store (A + 24) (s.used A + (s.sizeClasses i).size), s.chunks A + s.used A)) ∨
    (s.NoRoom A ∧ supply s.sbrks chunkBytes = true ∧ allocFromSizeClass supply s i =
      ((s.withChunk A).store (A + 24) (s.sizeClasses i).size, s.brk)) := by
  subst hA
  simp only [allocFromSizeClass, h, lt_irrefl, and_false, if_false]
  rcases ensureChunk_cases supply s (s.sizeClasses i).arena with
    ⟨hroom, hsupply, heq⟩ | ⟨hroom, heq⟩ | ⟨hroom, hsupply, heq⟩
  · rw [heq]
    exact .inl ⟨hroom, hsupply, rfl⟩
  · rw [heq]
    exact .inr (.inl ⟨hroom, rfl⟩)
  · rw [heq]
    refine .inr (.inr ⟨hroom, hsupply, ?_⟩)
    simp

/-- A class with free blocks. -/
theorem pop_eq (h : (s.sizeClasses i).freeList ≠ 0 ∧ 0 < (s.sizeClasses i).freeCount) :
    allocFromSizeClass supply s i =
      (s.setClass i { s.sizeClasses i with freeCount := (s.sizeClasses i).freeCount - 1 },
        s.load ((s.sizeClasses i).freeList + 8 * ((s.sizeClasses i).freeCount - 1))) := if_pos h

/-- The header of a large block is written. -/
def Allocator.withHeader (s : Allocator) (n : ℕ) : Allocator :=
  ((s.granted n).store s.brk n).store (s.brk + 8) blockMagic

/-- **A large block.** -/
theorem large_cases (supply : Supply) (s : Allocator) (n : ℕ) :
    (supply s.sbrks (pageRound n) = false ∧ allocLarge supply s n = (s.refused, 0)) ∨
    (supply s.sbrks (pageRound n) = true ∧
      allocLarge supply s n = (s.withHeader (pageRound n), s.brk + 16)) := by
  unfold allocLarge
  rcases sbrk_cases supply s (pageRound n) with ⟨hsupply, heq⟩ | ⟨hsupply, heq⟩
  · rw [heq]
    exact .inr ⟨hsupply, rfl⟩
  · rw [heq]
    exact .inl ⟨hsupply, rfl⟩

/-- The allocator with an arena. -/
def Allocator.withArena (s : Allocator) : Allocator :=
  { initSizeClasses ((((({ s.granted 32 with mainArena := s.brk } : Allocator).store s.brk 0).store
      (s.brk + 8) 0).store (s.brk + 16) 0).store (s.brk + 24) 0) with initialized := true }

/-- The initialisation. -/
theorem init_cases (supply : Supply) (s : Allocator) :
    (s.initialized = true ∧ initAllocator supply s = s) ∨
    (s.initialized = false ∧ supply s.sbrks 32 = false ∧
      initAllocator supply s = { s.refused with mainArena := 2 ^ 64 - 1 }) ∨
    (s.initialized = false ∧ supply s.sbrks 32 = true ∧
      initAllocator supply s = s.withArena) := by
  cases hs : s.initialized with
  | true => exact .inl ⟨rfl, initAllocator_eq hs⟩
  | false =>
    refine .inr ?_
    rw [initAllocator, if_neg (by rw [hs]; exact Bool.false_ne_true)]
    rcases sbrk_cases supply s 32 with ⟨hsupply, heq⟩ | ⟨hsupply, heq⟩
    · rw [heq]
      exact .inr ⟨rfl, hsupply, rfl⟩
    · rw [heq]
      exact .inl ⟨rfl, hsupply, rfl⟩

/-- **Which function** `malloc` leaves the work to. -/
theorem malloc_cases (supply : Supply) (h : ClassesOk s) (hn : n ≠ 0) :
    ((initAllocator supply s).initialized = true ∧ n ≤ maxSmallSize ∧
      ∃ i, findSizeClass (initAllocator supply s) n = some i ∧
        malloc supply s n = allocFromSizeClass supply (initAllocator supply s) i) ∨
    (¬ ((initAllocator supply s).initialized = true ∧ n ≤ maxSmallSize) ∧
      malloc supply s n = allocLarge supply (initAllocator supply s) n) := by
  have hinit : ClassesOk (initAllocator supply s) := initAllocator_classes h
  rw [malloc, if_neg hn]
  simp only
  by_cases hsmall : n ≤ maxSmallSize
  · rw [if_pos hsmall]
    cases hs : (initAllocator supply s).initialized with
    | true =>
      obtain ⟨i, hi⟩ := findSizeClass_small hinit hs hsmall
      rw [hi]
      exact .inl ⟨rfl, hsmall, i, rfl, rfl⟩
    | false =>
      rw [findSizeClass_blank hinit hs (Nat.pos_of_ne_zero hn)]
      exact .inr ⟨fun h => absurd h.1 Bool.false_ne_true, rfl⟩
  · rw [if_neg hsmall]
    exact .inr ⟨fun h => hsmall h.2, rfl⟩

end

end PrismaticOS.Libc
