import PrismaticOS.Libc.MallocParts

/-!
# The blocks of `malloc`

Whether the live blocks have the bytes that were asked for, in memory that `sbrk` gave, apart from
each other and from what the allocator uses itself.

## What is proved

* `HeapInv.malloc`, `HeapInv.free`, `HeapInv.realloc` — the calls keep the invariant, and what
  the other blocks hold, if they meet a condition: a small block fits into the chunk
  (`alloc_from_size_class` checks only whether the chunk is used up), a large one into its pages
  with its header, a block that grows in place is taken for what it is, and the array of free
  blocks does not have to be moved.
* `HeapInv.malloc_eq_zero_iff` — when `malloc` returns `NULL`.
* `blocks_separated` — in every run of such calls the live blocks have their bytes.
* `pages_overrun` — `malloc(8192)` gives out 16 bytes more than it has.
-/

namespace PrismaticOS.Libc

open PrismaticOS.Library

section
variable {supply : Supply} {start : ℕ} {s s' : Allocator} {live live' : List Block}
  {b b' : Block} {n i ptr : ℕ}

/-! ### `malloc` -/

/-- The initialised allocator has room for `n` bytes: a free block, a new chunk, the rest of the
chunk, or pages for the bytes and the header, if `sbrk` gives them. -/
def HasRoom (supply : Supply) (s : Allocator) (n : ℕ) : Prop :=
  if s.initialized ∧ n ≤ maxSmallSize then
    (n ≤ 8 ∧ 0 < s.freeCount) ∨ s.NoRoom s.mainArena ∨
      s.used s.mainArena + n ≤ s.chunkSize s.mainArena
  else supply s.sbrks (pageRound n) = false ∨ n + 16 ≤ pageRound n

/-- `malloc(n)` gives out no more than there is. -/
def MallocFits (supply : Supply) (s : Allocator) (n : ℕ) : Prop :=
  n = 0 ∨ HasRoom supply (initAllocator supply s) n

instance : Decidable (HasRoom supply s n) :=
  inferInstanceAs (Decidable (if s.initialized ∧ n ≤ maxSmallSize then
    (n ≤ 8 ∧ 0 < s.freeCount) ∨ s.NoRoom s.mainArena ∨
      s.used s.mainArena + n ≤ s.chunkSize s.mainArena
  else supply s.sbrks (pageRound n) = false ∨ n + 16 ≤ pageRound n))

instance : Decidable (MallocFits supply s n) := inferInstanceAs (Decidable (_ ∨ HasRoom _ _ _))

/-- The live blocks after a call of `malloc` for `n` bytes. -/
def withNew (live : List Block) (r : Allocator × ℕ) (n : ℕ) : List Block :=
  if r.2 = 0 then live else newBlock r.1 r.2 n :: live

theorem newBlock_small (hs : s.initialized = true) (hn : n ≤ maxSmallSize) :
    newBlock s ptr n = ⟨ptr, n, none⟩ := by rw [newBlock, if_pos ⟨hs, hn⟩]

theorem newBlock_large (h : ¬ (s.initialized = true ∧ n ≤ maxSmallSize)) :
    newBlock s ptr n = ⟨ptr, n, some (pageRound n)⟩ := by rw [newBlock, if_neg h]

theorem newBlock_congr (h : s'.initialized = s.initialized) :
    newBlock s' ptr n = newBlock s ptr n := by rw [newBlock, newBlock, h]

theorem HeapInv.withNew (h : HeapInv start s (b :: live)) (hnew : newBlock s ptr n = b) :
    HeapInv start s (withNew live (s, ptr) n) := by
  rw [Libc.withNew, hnew]
  split_ifs
  · exact h.tail
  · exact h

/-- `sbrk` gave nothing. -/
theorem HeapInv.refused (h : HeapInv start s live) : HeapInv start s.refused live :=
  h.frame_above (n := 0) ⟨rfl, rfl, rfl, le_rfl⟩ fun _ _ => rfl

/-- A class with free blocks is the first one, and there is a list of them. -/
theorem HeapInv.stocked (h : HeapInv start s live) (hs : s.initialized = true)
    (hcount : (s.sizeClasses i).freeCount ≠ 0) : i = 0 ∧ 0 < s.freeCount ∧ s.freeList ≠ 0 := by
  have hzero : i = 0 := by
    by_contra hne
    exact hcount (h.classes.empty hs i hne).2
  subst hzero
  exact ⟨rfl, Nat.pos_of_ne_zero hcount, fun hnull => hcount (h.list hnull)⟩

/-- **`malloc` of a small block** by an initialised allocator. -/
theorem HeapInv.allocSmall (h : HeapInv start s live) (hs : s.initialized = true)
    (hn : n ≤ maxSmallSize) (hi : findSizeClass s n = some i) (hroom : HasRoom supply s n) :
    HeapInv start (allocFromSizeClass supply s i).1
        (Libc.withNew live (allocFromSizeClass supply s i) n) ∧
      KeepsBytes s (allocFromSizeClass supply s i).1 live := by
  have hsize := h.classes.size hs i
  have hle := ((findSizeClass_eq h.classes hs).mp hi).1
  rw [HasRoom, if_pos ⟨hs, hn⟩] at hroom
  by_cases hcount : (s.sizeClasses i).freeCount = 0
  · rcases carve_cases supply (h.classes.arena hs i) hcount with
      ⟨-, -, heq⟩ | ⟨hno, heq⟩ | ⟨hno, -, heq⟩
    · rw [heq]
      exact ⟨h.refused, .refl _ _⟩
    · have hfit : s.used s.mainArena + n ≤ chunkBytes := by
        rw [(h.chunk hs hno).size] at hroom
        rcases hroom with ⟨h8, hfree⟩ | hroom | hroom
        · rw [findSizeClass_le h.classes hs h8] at hi
          cases hi
          exact absurd hcount hfree.ne'
        · exact absurd hroom hno
        · exact hroom
      rw [heq, hsize]
      have hcarve := h.carve hs hno (le_classSize i) (dvd_classSize i) hle hfit
      exact ⟨hcarve.withNew (newBlock_small hs hn),
        h.keeps_own (arena_mem hs) (used_onlyIn s _)⟩
    · obtain ⟨hchunk, hroom'⟩ := h.withChunk hs
      have hfit : 0 + n ≤ chunkBytes := by
        have hbytes : maxSmallSize ≤ chunkBytes := by decide
        omega
      have hcarve := hchunk.carve hs hroom' (le_classSize i) (dvd_classSize i) hle
        (by rw [withChunk_mainArena, withChunk_used]; exact hfit)
      rw [withChunk_mainArena, withChunk_used, withChunk_chunks, Nat.zero_add, Nat.add_zero]
        at hcarve
      rw [heq, hsize]
      exact ⟨hcarve.withNew (newBlock_small hs hn), h.keeps_own (arena_mem hs)
        (withChunk_onlyIn.trans (used_onlyIn (s.withChunk s.mainArena) _))⟩
  · obtain ⟨rfl, hpos, hlist⟩ := h.stocked hs hcount
    rw [pop_eq ⟨hlist, hpos⟩]
    exact ⟨(h.pop hs hlist hpos hle).withNew (newBlock_small hs hn), fun _ _ => .refl _ _ _⟩

/-- A large block, or a small one without an arena. -/
theorem HeapInv.allocLarge (h : HeapInv start s live) (hn : n ≠ 0)
    (hlarge : ¬ (s.initialized = true ∧ n ≤ maxSmallSize)) (hroom : HasRoom supply s n) :
    HeapInv start (allocLarge supply s n).1 (Libc.withNew live (Libc.allocLarge supply s n) n) ∧
      KeepsBytes s (Libc.allocLarge supply s n).1 live := by
  rw [HasRoom, if_neg hlarge] at hroom
  rcases large_cases supply s n with ⟨-, heq⟩ | ⟨hsupply, heq⟩
  · rw [heq]
    exact ⟨h.refused, .refl _ _⟩
  · have hfit : n + 16 ≤ pageRound n := by
      rcases hroom with hno | hfit
      · rw [hno] at hsupply
        cases hsupply
      · exact hfit
    rw [heq]
    exact ⟨(h.withHeader hn hfit).withNew (newBlock_large hlarge),
      h.keeps_above (withHeader_onlyIn s _)⟩

/-- **`malloc`** keeps the invariant, with the new block, and what the other blocks hold. -/
theorem HeapInv.malloc (h : HeapInv start s live) (hfits : MallocFits supply s n) :
    HeapInv start (Libc.malloc supply s n).1 (Libc.withNew live (Libc.malloc supply s n) n) ∧
      KeepsBytes s (Libc.malloc supply s n).1 live := by
  by_cases hn : n = 0
  · rw [Libc.malloc, if_pos hn]
    exact ⟨h, .refl _ _⟩
  · have hroom := hfits.resolve_left hn
    have hinit : HeapInv start (initAllocator supply s) live := h.init
    have hkeeps : KeepsBytes s (initAllocator supply s) live := h.init_keeps
    rcases malloc_cases supply h.classes hn with ⟨hs, hsmall, i, hi, heq⟩ | ⟨hlarge, heq⟩
    · rw [heq]
      obtain ⟨hinv, hbytes⟩ := hinit.allocSmall hs hsmall hi hroom
      exact ⟨hinv, hkeeps.trans hbytes⟩
    · rw [heq]
      obtain ⟨hinv, hbytes⟩ := hinit.allocLarge hn hlarge hroom
      exact ⟨hinv, hkeeps.trans hbytes⟩

/-- `malloc(n)` needs memory from `sbrk`, and there is none. -/
def Refused (supply : Supply) (s : Allocator) (n : ℕ) : Prop :=
  let s := initAllocator supply s
  if s.initialized ∧ n ≤ maxSmallSize then
    ¬ (n ≤ 8 ∧ 0 < s.freeCount) ∧ s.NoRoom s.mainArena ∧ supply s.sbrks chunkBytes = false
  else supply s.sbrks (pageRound n) = false

instance : Decidable (Refused supply s n) :=
  inferInstanceAs (Decidable (if (initAllocator supply s).initialized ∧ n ≤ maxSmallSize then
    ¬ (n ≤ 8 ∧ 0 < (initAllocator supply s).freeCount) ∧
      (initAllocator supply s).NoRoom (initAllocator supply s).mainArena ∧
        supply (initAllocator supply s).sbrks chunkBytes = false
  else supply (initAllocator supply s).sbrks (pageRound n) = false))

/-- A block that is cut off the chunk is missing only without a chunk. -/
theorem ClassesOk.carve_eq_zero_iff (h : ClassesOk s) (hs : s.initialized = true)
    (hcount : (s.sizeClasses i).freeCount = 0) :
    (allocFromSizeClass supply s i).2 = 0 ↔
      s.NoRoom s.mainArena ∧ supply s.sbrks chunkBytes = false := by
  rcases carve_cases supply (h.arena hs i) hcount with
    ⟨hno, hsupply, heq⟩ | ⟨hno, heq⟩ | ⟨hno, hsupply, heq⟩
  · rw [heq]
    exact iff_of_true rfl ⟨hno, hsupply⟩
  · rw [heq]
    exact iff_of_false (fun hnull => hno (.inl (Nat.add_eq_zero_iff.mp hnull).1))
      (fun h => hno h.1)
  · rw [heq]
    refine iff_of_false h.brk.ne' fun hrefused => ?_
    rw [hrefused.2] at hsupply
    cases hsupply

theorem HeapInv.allocSmall_eq_zero_iff (h : HeapInv start s live) (hs : s.initialized = true)
    (hi : findSizeClass s n = some i) :
    (allocFromSizeClass supply s i).2 = 0 ↔
      ¬ (n ≤ 8 ∧ 0 < s.freeCount) ∧ s.NoRoom s.mainArena ∧ supply s.sbrks chunkBytes = false := by
  by_cases hcount : (s.sizeClasses i).freeCount = 0
  · have hfree : ¬ (n ≤ 8 ∧ 0 < s.freeCount) := by
      rintro ⟨h8, hpos⟩
      rw [findSizeClass_le h.classes hs h8] at hi
      cases hi
      exact hpos.ne' hcount
    rw [and_iff_right hfree]
    exact h.classes.carve_eq_zero_iff hs hcount
  · obtain ⟨rfl, hpos, hlist⟩ := h.stocked hs hcount
    have hmem : (⟨s.load (s.freeList + 8 * (s.freeCount - 1)), 8⟩ : Range) ∈ s.freeBlocks :=
      List.mem_map.mpr ⟨_, List.mem_range.mpr (Nat.sub_one_lt_of_lt hpos), rfl⟩
    have hposition : 16 ≤ s.load (s.freeList + 8 * (s.freeCount - 1)) := h.reusable _ hmem
    rw [pop_eq ⟨hlist, hpos⟩]
    exact iff_of_false (Nat.ne_of_gt ((by decide : 0 < 16).trans_le hposition))
      (fun hrefused => hrefused.1 ⟨((findSizeClass_eq h.classes hs).mp hi).1, hpos⟩)

theorem allocLarge_eq_zero_iff :
    (Libc.allocLarge supply s n).2 = 0 ↔ supply s.sbrks (pageRound n) = false := by
  rcases large_cases supply s n with ⟨hsupply, heq⟩ | ⟨hsupply, heq⟩
  · rw [heq]
    exact iff_of_true rfl hsupply
  · rw [heq, hsupply]
    exact iff_of_false (Nat.succ_ne_zero _) Bool.false_ne_true.symm

/-- When a larger `malloc` returns `NULL`, in any state. -/
theorem ClassesOk.malloc_eq_zero_iff (h : ClassesOk s) (hs : s.initialized = true) (hn : 8 < n) :
    (Libc.malloc supply s n).2 = 0 ↔ Refused supply s n := by
  rw [Refused, initAllocator_eq hs]
  rcases malloc_cases supply h (Nat.ne_of_gt (Nat.zero_lt_of_lt hn)) with
    ⟨-, hsmall, i, hi, heq⟩ | ⟨hlarge, heq⟩
  · rw [initAllocator_eq hs] at hi heq
    rw [if_pos ⟨hs, hsmall⟩, heq, and_iff_right fun hno => absurd hno.1 (Nat.not_le_of_lt hn)]
    exact h.carve_eq_zero_iff hs (h.empty hs i (findSizeClass_ne_zero h hs hn hi)).2
  · rw [initAllocator_eq hs] at hlarge heq
    rw [if_neg hlarge, heq]
    exact allocLarge_eq_zero_iff

/-- **When `malloc` returns `NULL`.** -/
theorem HeapInv.malloc_eq_zero_iff (h : HeapInv start s live) (hn : n ≠ 0) :
    (Libc.malloc supply s n).2 = 0 ↔ Refused supply s n := by
  have hinit : HeapInv start (initAllocator supply s) live := h.init
  rw [Refused]
  rcases malloc_cases supply h.classes hn with ⟨hs, hsmall, i, hi, heq⟩ | ⟨hlarge, heq⟩
  · rw [if_pos ⟨hs, hsmall⟩, heq]
    exact hinit.allocSmall_eq_zero_iff hs hi
  · rw [if_neg hlarge, heq]
    exact allocLarge_eq_zero_iff

/-- A `malloc` that returns `NULL` gives out nothing. -/
theorem HeapInv.fits_of_null (h : HeapInv start s live) (hnull : (Libc.malloc supply s n).2 = 0) :
    MallocFits supply s n := by
  by_cases hn : n = 0
  · exact .inl hn
  · have hrefused := (h.malloc_eq_zero_iff hn).mp hnull
    refine .inr ?_
    rw [Refused] at hrefused
    rw [HasRoom]
    split_ifs at hrefused ⊢
    · exact .inr (.inl hrefused.2.1)
    · exact .inl hrefused

/-! ### `free` -/

/-- `free` does not have to move the array: it takes the block for a large one, which it keeps, or
there is room in the array, or no array yet, or no memory for a longer one. -/
def FreeFits (supply : Supply) (s : Allocator) (b : Block) : Prop :=
  s.HasMagic b.ptr ∨ s.freeCount % 64 ≠ 0 ∨ (s.freeList = 0 ∧ MallocFits supply s 512) ∨
    (s.freeList ≠ 0 ∧ ¬ s.HasMagic s.freeList ∧
      (Libc.malloc supply s ((s.freeCount + 64) * 8)).2 = 0)

instance : Decidable (FreeFits supply s b) :=
  inferInstanceAs (Decidable (s.HasMagic b.ptr ∨ s.freeCount % 64 ≠ 0 ∨
    (s.freeList = 0 ∧ MallocFits supply s 512) ∨ (s.freeList ≠ 0 ∧ ¬ s.HasMagic s.freeList ∧
      (Libc.malloc supply s ((s.freeCount + 64) * 8)).2 = 0)))

/-- The array is made, if there is memory for it. -/
theorem HeapInv.first_array (h : HeapInv start s live) (hs : s.initialized = true)
    (hlist : s.freeList = 0) (hfits : MallocFits supply s 512) {t : Allocator} {q : ℕ}
    (hmalloc : Libc.malloc supply s 512 = (t, q)) (hq : q ≠ 0) :
    HeapInv start (t.withArray q) live ∧ KeepsBytes s (t.withArray q) live ∧
      t.initialized = true ∧ t.freeCount = 0 := by
  obtain ⟨hinv, hkeeps⟩ := h.malloc hfits
  have hstatics : Statics s (Libc.malloc supply s 512).1 :=
    malloc_statics h.classes hs (by decide)
  rw [hmalloc] at hinv hkeeps hstatics
  have hinit : t.initialized = true := hstatics.initialized.trans hs
  rw [Libc.withNew, if_neg hq, newBlock_small hinit (by decide)] at hinv
  have hlist' : t.freeList = 0 := by
    rw [Allocator.freeList, hstatics.sizeClasses]
    exact hlist
  exact ⟨hinv.adopt hinit hq hlist', hkeeps, hinit, hinv.list hlist'⟩

theorem freeToSizeClass_push {release : Allocator → ℕ → Option Allocator}
    (hcount : s.freeCount ≤ 64) (hgrow : s.freeCount % 64 ≠ 0) :
    freeToSizeClass supply release s ptr 0 = some (pushFree s ptr 0) := by
  have hlimit : (s.sizeClasses 0).freeCount < 1024 := hcount.trans_lt (by decide)
  exact (if_pos hlimit).trans (if_neg hgrow)

theorem freeToSizeClass_grow {release : Allocator → ℕ → Option Allocator}
    (hcount : s.freeCount ≤ 64) (hgrow : s.freeCount % 64 = 0) :
    freeToSizeClass supply release s ptr 0 =
      (reallocWith supply release s s.freeList ((s.freeCount + 64) * 8)).map fun r =>
        if r.2 = 0 then r.1
        else pushFree (r.1.withArray r.2) ptr 0 := by
  have hlimit : (s.sizeClasses 0).freeCount < 1024 := hcount.trans_lt (by decide)
  exact (if_pos hlimit).trans (if_pos hgrow)

/-- **`free`** keeps the invariant and what the other blocks hold, and it returns. -/
theorem HeapInv.free (h : HeapInv start s (b :: live)) (hfits : FreeFits supply s b) (depth : ℕ) :
    ∃ s', Libc.free supply (depth + 1) s b.ptr = some s' ∧ HeapInv start s' live ∧
      KeepsBytes s s' live := by
  have hhead : b ∈ b :: live := List.mem_cons_self
  by_cases hkept : b.ptr = 0 ∨ s.HasMagic b.ptr
  · exact ⟨s, free_large hkept, h.tail, .refl _ _⟩
  · obtain ⟨hptr, hmagic⟩ := not_or.mp hkept
    obtain ⟨p, m, large⟩ := b
    cases large with
    | some k => exact absurd (h.large _ hhead k rfl).magic hmagic
    | none =>
      have hs := (h.small _ hhead rfl).1
      rw [free_small h.classes hs hptr hmagic]
      by_cases hgrow : s.freeCount % 64 = 0
      · rw [freeToSizeClass_grow h.count hgrow]
        rcases hfits with hfits | hroom | ⟨hlist, hfits⟩ | ⟨hlist, hlistMagic, hnull⟩
        · exact absurd hfits hmagic
        · exact absurd hgrow hroom
        · -- the first array
          have hsize : (s.freeCount + 64) * 8 = 512 := by rw [h.list hlist]
          rw [reallocWith, if_pos hlist, hsize]
          cases hmalloc : Libc.malloc supply s 512 with
          | mk t q =>
            by_cases hq : q = 0
            · obtain ⟨hinv, hkeeps⟩ := h.malloc hfits
              rw [hmalloc, hq] at hinv hkeeps
              exact ⟨t, by rw [Option.map_some, if_pos hq], hinv.tail, fun c hc =>
                hkeeps c (List.mem_cons_of_mem _ hc)⟩
            · obtain ⟨hinv, hkeeps, hinit, hzero⟩ := h.first_array hs hlist hfits hmalloc hq
              have hlist' : (t.withArray q).freeList ≠ 0 := by rwa [withArray_freeList]
              have hcount : (t.withArray q).freeCount < 64 := by
                rw [withArray_freeCount, hzero]
                decide
              refine ⟨_, by rw [Option.map_some, if_neg hq], hinv.push hinit hlist' hcount, ?_⟩
              have hpush : KeepsBytes (t.withArray q) (pushFree (t.withArray q) p 0) live :=
                hinv.tail.keeps_own (array_mem hlist') (pushFree_onlyIn hcount)
              exact KeepsBytes.trans (fun c hc => hkeeps c (List.mem_cons_of_mem _ hc)) hpush
        · -- no longer one
          obtain ⟨hinv, hkeeps⟩ := h.malloc (h.fits_of_null hnull)
          have hsize : (s.freeCount + 64) * 8 ≠ 0 := by omega
          have hold : ¬ (s.freeCount + 64) * 8 ≤ oldSize s s.freeList := by
            rw [oldSize_small h.classes hs hlistMagic]
            omega
          rw [reallocWith, if_neg hlist, if_neg hsize, if_neg hold, moveBlock]
          cases hmalloc : Libc.malloc supply s ((s.freeCount + 64) * 8) with
          | mk t q =>
            rw [hmalloc] at hnull hinv hkeeps
            have hq : q = 0 := hnull
            subst hq
            exact ⟨t, rfl, hinv.tail, fun c hc => hkeeps c (List.mem_cons_of_mem _ hc)⟩
      · rw [freeToSizeClass_push h.count hgrow]
        have hlist : s.freeList ≠ 0 := fun hnull => hgrow (by rw [h.list hnull])
        have hcount : s.freeCount < 64 := by
          have hle := h.count
          omega
        refine ⟨_, rfl, h.push hs hlist hcount, ?_⟩
        exact h.tail.keeps_own (array_mem hlist) (pushFree_onlyIn hcount)

/-- `free` does not undo the initialisation, and it does not make it. -/
theorem HeapInv.free_initialized (h : HeapInv start s (b :: live)) {depth : ℕ}
    (hfree : Libc.free supply (depth + 1) s b.ptr = some s') : s'.initialized = s.initialized := by
  cases hs : s.initialized with
  | true => exact (free_kept h.classes hfree).initialized hs
  | false =>
    cases hlarge : b.large with
    | none =>
      have hinit := (h.small b List.mem_cons_self hlarge).1
      rw [hs] at hinit
      cases hinit
    | some k =>
      rw [free_large (.inr (h.large b List.mem_cons_self k hlarge).magic)] at hfree
      cases hfree
      exact hs

/-! ### `realloc` -/

/-- A block that `realloc` leaves where it is does not get larger, or it is taken for what it is;
where `realloc` makes a new block, there is room for it, and the old one can be freed. -/
def ReallocFits (supply : Supply) (s : Allocator) (b : Block) (n : ℕ) : Prop :=
  if n = 0 then FreeFits supply s b
  else if n ≤ oldSize s b.ptr then n ≤ b.size ∨ (b.large = none → ¬ s.HasMagic b.ptr)
  else MallocFits supply s n ∧ ((moveBlock supply s b.ptr n).2 ≠ 0 →
    FreeFits supply (moveBlock supply s b.ptr n).1 b)

instance : Decidable (ReallocFits supply s b n) :=
  inferInstanceAs (Decidable (if n = 0 then FreeFits supply s b
    else if n ≤ oldSize s b.ptr then n ≤ b.size ∨ (b.large = none → ¬ s.HasMagic b.ptr)
    else MallocFits supply s n ∧ ((Libc.moveBlock supply s b.ptr n).2 ≠ 0 →
      FreeFits supply (Libc.moveBlock supply s b.ptr n).1 b)))

attribute [irreducible] ReallocFits

theorem moveBlock_null {t : Allocator} (hmove : Libc.moveBlock supply s ptr n = (t, 0)) :
    Libc.malloc supply s n = (t, 0) := by
  rw [Libc.moveBlock] at hmove
  cases hmalloc : Libc.malloc supply s n with
  | mk u r =>
    rw [hmalloc] at hmove
    by_cases hr : r = 0
    · simp only [if_pos hr, Prod.mk.injEq] at hmove
      rw [hmove.1, hr]
    · simp only [if_neg hr, Prod.mk.injEq] at hmove
      exact absurd hmove.2 hr

/-- **The new block** is there beside the old one, with what was copied. -/
theorem HeapInv.moveBlock (h : HeapInv start s (b :: live)) (hfits : MallocFits supply s n)
    {t : Allocator} {q : ℕ} (hmove : Libc.moveBlock supply s b.ptr n = (t, q)) (hq : q ≠ 0) :
    HeapInv start t (b :: newBlock t q n :: live) ∧ KeepsBytes s t (b :: live) ∧
      ∀ i < min b.size n, i < oldSize s b.ptr → t.memory (q + i) = s.memory (b.ptr + i) := by
  obtain ⟨hinv, hkeeps⟩ := h.malloc hfits
  rw [Libc.moveBlock] at hmove
  cases hmalloc : Libc.malloc supply s n with
  | mk u r =>
    rw [hmalloc] at hmove hinv hkeeps
    have hr : r ≠ 0 := by
      rintro rfl
      cases hmove
      exact hq rfl
    simp only [if_neg hr, Prod.mk.injEq] at hmove
    obtain ⟨ht, rfl⟩ := hmove
    have hmemory : t.memory = copyCells u.memory r b.ptr (min (oldSize s b.ptr) n) := by rw [← ht]
    have hstatics : Statics u t := by
      rw [← ht]
      exact statics_memory u _
    have hsame : newBlock t r n = newBlock u r n := by
      rw [← ht]
      rfl
    have hcopy : OnlyIn ⟨r, min (oldSize s b.ptr) n⟩ u.memory t.memory := by
      rw [hmemory]
      exact onlyIn_copyCells _ _ _ _
    rw [Libc.withNew, if_neg hr] at hinv
    have hpayload : (⟨r, min (oldSize s b.ptr) n⟩ : Range).Within (newBlock u r n).payload :=
      ⟨le_rfl, Nat.add_le_add_left (min_le_right ..) _⟩
    have hrange := payload_within (hinv.large _ List.mem_cons_self)
    have hkept : KeepsBytes u t (b :: live) := by
      apply hinv.tail.keeps hcopy
      intro c hc
      have hapart : (newBlock u r n).range.Apart c.range := (List.pairwise_cons.mp hinv.apart).1 _
        (mem_holdings.mpr (.inl ⟨c, hc, rfl⟩))
      exact hapart.symm.mono (.refl _) ⟨hrange.1.trans hpayload.1, hpayload.2.trans hrange.2⟩
    refine ⟨?_, hkeeps.trans hkept, ?_⟩
    · rw [hsame]
      exact (hinv.frame_block hstatics hcopy hpayload).perm (.swap ..)
    · intro i hi hold
      have hcell : t.memory (r + i) = u.memory (b.ptr + i) := by
        rw [hmemory]
        exact copyCells_in (lt_min hold (hi.trans_le (min_le_right ..)))
      rw [hcell]
      exact hkeeps b List.mem_cons_self _ (Nat.le_add_right ..)
        (Nat.add_lt_add_left (hi.trans_le (min_le_left ..)) _)

theorem oldSize_large {k : ℕ} (h : LargeOk s b k) : oldSize s b.ptr = k - 16 := by
  have hpage := h.page
  have hbound := h.bound
  rw [oldSize, if_pos h.magic, h.size]
  omega

/-- **A block stays where it is**, with another size. -/
theorem HeapInv.resize (h : HeapInv start s (b :: live))
    (hfits : n ≤ b.size ∨ (b.large = none → ¬ s.HasMagic b.ptr)) (hn : n ≤ oldSize s b.ptr) :
    HeapInv start s ({ b with size := n } :: live) := by
  have hhead : b ∈ b :: live := List.mem_cons_self
  obtain ⟨p, m, large⟩ := b
  cases large with
  | none =>
    have hs := (h.small _ hhead rfl).1
    have hle : n ≤ max m 8 := by
      rcases hfits with hfits | hguess
      · exact hfits.trans (le_max_left ..)
      · rw [oldSize_small h.classes hs (hguess rfl)] at hn
        exact hn.trans (le_max_right ..)
    apply h.shrink
    · exact ⟨le_rfl, Nat.add_le_add_left (max_le hle (le_max_right ..)) _⟩
    · exact fun _ => ⟨hs, (h.small _ hhead rfl).2⟩
    · rintro k hk
      cases hk
  | some k =>
    have hlarge := h.large _ hhead k rfl
    have hpage := hlarge.page
    rw [oldSize_large hlarge] at hn
    apply h.shrink
    · exact ⟨le_rfl, le_rfl⟩
    · intro hno
      cases hno
    · rintro j hj
      cases hj
      exact ⟨hlarge.size, hlarge.magic, by simp only; omega, hpage, hlarge.position, hlarge.bound⟩

/-- **What `realloc` does** with a block: it stays where it is, or there is no memory, or there is
a new block when the old one is free. -/
theorem HeapInv.realloc_cases (h : HeapInv start s (b :: live)) (hstart : 0 < start) (hn : n ≠ 0)
    (hfits : ReallocFits supply s b n) (depth : ℕ) :
    (n ≤ oldSize s b.ptr ∧ Libc.realloc supply (depth + 1) s b.ptr n = some (s, b.ptr)) ∨
    (¬ n ≤ oldSize s b.ptr ∧ ∃ t, Libc.malloc supply s n = (t, 0) ∧
      Libc.realloc supply (depth + 1) s b.ptr n = some (t, 0)) ∨
    (¬ n ≤ oldSize s b.ptr ∧ ∃ t q s', q ≠ 0 ∧ Libc.moveBlock supply s b.ptr n = (t, q) ∧
      Libc.realloc supply (depth + 1) s b.ptr n = some (s', q) ∧
      s'.initialized = t.initialized ∧ HeapInv start s' (newBlock t q n :: live) ∧
      KeepsBytes t s' (newBlock t q n :: live)) := by
  rw [ReallocFits, if_neg hn] at hfits
  rw [Libc.realloc, reallocWith, if_neg (h.ptr_ne_zero hstart), if_neg hn]
  by_cases hkeep : n ≤ oldSize s b.ptr
  · rw [if_pos hkeep]
    exact .inl ⟨hkeep, rfl⟩
  · rw [if_neg hkeep] at hfits ⊢
    obtain ⟨hfits, hfree⟩ := hfits
    cases hmove : Libc.moveBlock supply s b.ptr n with
    | mk t q =>
      rw [hmove] at hfree
      by_cases hq : q = 0
      · subst hq
        exact .inr (.inl ⟨hkeep, t, moveBlock_null hmove, rfl⟩)
      · obtain ⟨hinv, -, -⟩ := h.moveBlock hfits hmove hq
        obtain ⟨s', hs', hinv', hkeeps⟩ := hinv.free (hfree hq) depth
        have hresult : (if q = 0 then some (t, 0)
            else (Libc.free supply (depth + 1) t b.ptr).map fun s => (s, q)) = some (s', q) := by
          rw [if_neg hq, hs', Option.map_some]
        exact .inr (.inr ⟨hkeep, t, q, s', hq, rfl, hresult, hinv.free_initialized hs', hinv',
          hkeeps⟩)

/-- The live blocks after a call of `realloc` of the block `b`, the others being `live`. -/
def afterRealloc (b : Block) (live : List Block) (s : Allocator) (q n : ℕ) : List Block :=
  if q = 0 then if n = 0 then live else b :: live
  else if q = b.ptr then { b with size := n } :: live
  else newBlock s q n :: live

/-- **`realloc`** keeps the invariant and what the other blocks hold, and it returns. -/
theorem HeapInv.realloc (h : HeapInv start s (b :: live)) (hstart : 0 < start)
    (hfits : ReallocFits supply s b n) (depth : ℕ) :
    ∃ s' q, Libc.realloc supply (depth + 1) s b.ptr n = some (s', q) ∧
      HeapInv start s' (afterRealloc b live s' q n) ∧ KeepsBytes s s' live := by
  have hptr := h.ptr_ne_zero hstart
  by_cases hn : n = 0
  · have hfree := hfits
    rw [ReallocFits, if_pos hn] at hfree
    obtain ⟨s', hs', hinv, hkeeps⟩ := h.free hfree depth
    rw [Libc.realloc, reallocWith, if_neg hptr, if_pos hn, hs']
    refine ⟨s', 0, rfl, ?_, hkeeps⟩
    rw [afterRealloc, if_pos rfl, if_pos hn]
    exact hinv
  · have hroom := hfits
    rw [ReallocFits, if_neg hn] at hroom
    rcases h.realloc_cases hstart hn hfits depth with
      ⟨hkeep, heq⟩ | ⟨hkeep, t, hmalloc, heq⟩ | ⟨hkeep, t, q, s', hq, hmove, heq, hs', hinv, hbytes⟩
    · rw [if_pos hkeep] at hroom
      refine ⟨s, b.ptr, heq, ?_, .refl _ _⟩
      rw [afterRealloc, if_neg hptr, if_pos rfl]
      exact h.resize hroom hkeep
    · rw [if_neg hkeep] at hroom
      obtain ⟨hinv, hkeeps⟩ := h.malloc hroom.1
      rw [hmalloc] at hinv hkeeps
      refine ⟨t, 0, heq, ?_, fun c hc => hkeeps c (List.mem_cons_of_mem _ hc)⟩
      rw [afterRealloc, if_pos rfl, if_neg hn]
      exact hinv
    · rw [if_neg hkeep] at hroom
      obtain ⟨hboth, hkeeps, -⟩ := h.moveBlock hroom.1 hmove hq
      have hne : q ≠ b.ptr := hboth.ptr_ne.symm
      refine ⟨s', q, heq, ?_, fun c hc => (hkeeps c (List.mem_cons_of_mem _ hc)).trans
        (hbytes c (List.mem_cons_of_mem _ hc))⟩
      rw [afterRealloc, if_neg hq, if_neg hne, newBlock_congr hs']
      exact hinv

/-! ### Runs -/

/-- What a call has to meet, so that blocks do not overlap. -/
def CallFits (supply : Supply) (p : Process) : AllocCall → Prop
  | .malloc size => MallocFits supply p.heap size
  | .free ptr => ∀ b, p.block ptr = some b → FreeFits supply p.heap b
  | .realloc ptr size => ∀ b, p.block ptr = some b → ReallocFits supply p.heap b size
  | .write _ _ _ => True

instance (p : Process) : (call : AllocCall) → Decidable (CallFits supply p call)
  | .malloc size => inferInstanceAs (Decidable (MallocFits supply p.heap size))
  | .free ptr => inferInstanceAs (Decidable (∀ b, p.block ptr = some b → FreeFits supply p.heap b))
  | .realloc ptr size =>
    inferInstanceAs (Decidable (∀ b, p.block ptr = some b → ReallocFits supply p.heap b size))
  | .write _ _ _ => isTrue trivial

theorem block_mem {p : Process} (h : p.block ptr = some b) : b ∈ p.live ∧ b.ptr = ptr := by
  refine ⟨List.mem_of_find?_eq_some h, ?_⟩
  simpa using List.find?_some h

/-- More room on the stack changes nothing. -/
theorem reallocWith_mono {release release' : Allocator → ℕ → Option Allocator}
    (hmono : ∀ t ptr t', release t ptr = some t' → release' t ptr = some t')
    {r : Allocator × ℕ} (hr : reallocWith supply release s ptr n = some r) :
    reallocWith supply release' s ptr n = some r := by
  unfold reallocWith at hr ⊢
  split_ifs at hr ⊢
  · exact hr
  · obtain ⟨t, ht, rfl⟩ := Option.map_eq_some_iff.mp hr
    rw [hmono _ _ _ ht]
    rfl
  · exact hr
  · split at hr
    split_ifs at hr ⊢
    · exact hr
    · obtain ⟨t, ht, rfl⟩ := Option.map_eq_some_iff.mp hr
      rw [hmono _ _ _ ht]
      rfl

theorem free_succ {depth : ℕ} {t t' : Allocator} (h : Libc.free supply depth t ptr = some t') :
    Libc.free supply (depth + 1) t ptr = some t' := by
  induction depth generalizing t t' ptr with
  | zero => cases h
  | succ depth ih =>
    rw [Libc.free] at h ⊢
    split_ifs at h ⊢
    · exact h
    · exact h
    · split at h
      · simp only [freeToSizeClass] at h ⊢
        split_ifs at h ⊢
        · obtain ⟨r, hr, rfl⟩ := Option.map_eq_some_iff.mp h
          rw [reallocWith_mono (fun t ptr t' => ih) hr]
          rfl
        · exact h
        · exact h
      · exact h

theorem realloc_succ {depth : ℕ} {r : Allocator × ℕ}
    (h : Libc.realloc supply depth s ptr n = some r) :
    Libc.realloc supply (depth + 1) s ptr n = some r :=
  reallocWith_mono (fun _ _ _ => free_succ) h

/-- **Every call** that meets the condition keeps the invariant. -/
theorem HeapInv.step {p p' : Process} {depth : ℕ} {call : AllocCall}
    (h : HeapInv start p.heap p.live) (hstart : 0 < start) (hfits : CallFits supply p call)
    (hstep : heapStep supply depth p call = some p') : HeapInv start p'.heap p'.live := by
  cases call with
  | malloc size =>
    rw [heapStep] at hstep
    cases hstep
    exact (h.malloc hfits).1
  | free ptr =>
    obtain ⟨b, hb, hstep⟩ := Option.bind_eq_some_iff.mp hstep
    obtain ⟨s, hs, heq⟩ := Option.map_eq_some_iff.mp hstep
    cases heq
    obtain ⟨hmem, rfl⟩ := block_mem hb
    cases depth with
    | zero => cases hs
    | succ depth =>
      have hperm : HeapInv start p.heap (b :: p.live.erase b) := h.perm (List.perm_cons_erase hmem)
      obtain ⟨s', hs', hinv, -⟩ := hperm.free (hfits b hb) depth
      rw [hs] at hs'
      cases hs'
      exact hinv
  | realloc ptr size =>
    obtain ⟨b, hb, hstep⟩ := Option.bind_eq_some_iff.mp hstep
    obtain ⟨⟨s, q⟩, hs, heq⟩ := Option.map_eq_some_iff.mp hstep
    obtain ⟨hmem, rfl⟩ := block_mem hb
    have hperm : HeapInv start p.heap (b :: p.live.erase b) := h.perm (List.perm_cons_erase hmem)
    obtain ⟨s', q', hs', hinv, -⟩ := hperm.realloc hstart (hfits b hb) depth
    rw [realloc_succ hs, Option.some.injEq, Prod.mk.injEq] at hs'
    obtain ⟨rfl, rfl⟩ := hs'
    simp only at heq
    rw [← heq]
    rw [afterRealloc] at hinv
    by_cases hq : q = 0
    · rw [if_pos hq] at hinv ⊢
      by_cases hn : size = 0
      · rw [if_pos hn] at hinv ⊢
        exact hinv
      · rw [if_neg hn] at hinv ⊢
        exact hinv.perm (List.perm_cons_erase hmem).symm
    · rw [if_neg hq] at hinv ⊢
      by_cases hkept : q = b.ptr
      · rw [if_pos hkept] at hinv ⊢
        exact hinv
      · rw [if_neg hkept] at hinv ⊢
        exact hinv
  | write ptr offset byte =>
    obtain ⟨b, hb, hstep⟩ := Option.bind_eq_some_iff.mp hstep
    obtain ⟨hmem, rfl⟩ := block_mem hb
    split_ifs at hstep with hlt
    cases hstep
    have hperm : HeapInv start p.heap (b :: p.live.erase b) := h.perm (List.perm_cons_erase hmem)
    have hwrite : (⟨b.ptr + offset, 1⟩ : Range).Within b.payload :=
      ⟨Nat.le_add_right .., by simp only [Range.stop, Block.payload]; omega⟩
    exact (hperm.frame_block (statics_memory _ _) (onlyIn_update _ _ _) hwrite).perm
      (List.perm_cons_erase hmem).symm

/-! ### Blocks apart from each other -/

/-- The array of free blocks of a class: it has room for 64 pointers at least. -/
def SizeClass.array (sc : SizeClass) : Range := ⟨sc.freeList, 8 * max 64 sc.freeCount⟩

/-- The allocator's own data: the arena, the arrays, and the headers of the large blocks. -/
def Process.metadata (p : Process) : List Range :=
  (if p.heap.initialized then [p.heap.arena] else []) ++
    ((((List.range numSizeClasses).map p.heap.sizeClasses).filter
      fun sc => sc.freeList ≠ 0).map SizeClass.array ++
    (p.live.filter fun b => b.large.isSome).map Block.header)

/-- Every live block has the bytes that were asked for. -/
structure Separated (start : ℕ) (p : Process) : Prop where
  /-- They are in memory that `sbrk` gave. -/
  obtained : ∀ b ∈ p.live, start ≤ b.ptr ∧ b.ptr + b.size ≤ p.heap.brk
  /-- They are not bytes of another live block. -/
  apart : p.live.Pairwise fun b b' => b.payload.Apart b'.payload
  /-- The allocator does not use them. -/
  metadata : ∀ b ∈ p.live, ∀ r ∈ p.metadata, b.payload.Apart r

theorem HeapInv.separated {p : Process} (h : HeapInv start p.heap p.live) :
    Separated start p where
  obtained b hb := by
    obtain ⟨hlow, hhigh⟩ := h.within b.range (mem_holdings.mpr (.inl ⟨b, hb, rfl⟩))
    have hpayload := payload_within (h.large b hb)
    exact ⟨hlow.trans hpayload.1, hpayload.2.trans hhigh⟩
  apart := by
    have hblocks := (List.pairwise_append.mp h.apart).1
    rw [List.pairwise_map] at hblocks
    apply hblocks.imp_of_mem
    exact fun hb hb' hapart =>
      hapart.mono (payload_within (h.large _ hb)) (payload_within (h.large _ hb'))
  metadata b hb r hr := by
    have hpayload := payload_within (h.large b hb)
    rw [Process.metadata, List.mem_append, List.mem_append] at hr
    rcases hr with hr | hr | hr
    · split_ifs at hr with hs
      · rw [List.mem_singleton.mp hr]
        exact (h.own_apart hb (arena_mem hs)).mono hpayload (.refl _)
      · cases hr
    · obtain ⟨sc, hsc, rfl⟩ := List.mem_map.mp hr
      obtain ⟨hsc, hlist⟩ := List.mem_filter.mp hsc
      obtain ⟨i, -, rfl⟩ := List.mem_map.mp hsc
      have hlist : (p.heap.sizeClasses i).freeList ≠ 0 := of_decide_eq_true hlist
      have hzero := h.classes.array_class hlist
      subst hzero
      have harray : (p.heap.sizeClasses 0).array = p.heap.array :=
        congrArg (Range.mk _) (congrArg (8 * ·) (max_eq_left h.count))
      rw [harray]
      exact (h.own_apart hb (array_mem hlist)).mono hpayload (.refl _)
    · obtain ⟨c, hc, rfl⟩ := List.mem_map.mp hr
      obtain ⟨hc, hlarge⟩ := List.mem_filter.mp hc
      obtain ⟨n, hn⟩ := Option.isSome_iff_exists.mp hlarge
      have hheader := h.large c hc n hn
      by_cases heq : b = c
      · subst heq
        have hpos := hheader.position
        right
        simp only [Range.stop, Block.header, Block.payload]
        omega
      · have hperm := h.perm (List.perm_cons_erase hb)
        have hrest : c ∈ p.live.erase b := (List.mem_erase_of_ne (Ne.symm heq)).mpr hc
        have hapart : b.range.Apart c.range :=
          (List.pairwise_cons.mp hperm.apart).1 _ (mem_holdings.mpr (.inl ⟨c, hrest, rfl⟩))
        exact hapart.mono hpayload (header_within hheader hn)

theorem started_inv {memory : Cells} (hstart : 0 < start) :
    HeapInv start (started memory start).heap (started memory start).live := by
  have hclasses : ClassesOk (started memory start).heap := uninitialized_classes hstart
  have hholdings : (started memory start).heap.holdings (started memory start).live = [] := by
    rw [Allocator.holdings, hclasses.own_blank rfl]
    rfl
  constructor
  · exact hclasses
  · exact le_rfl
  · exact Nat.zero_le _
  · exact fun _ => rfl
  · exact fun b hb => absurd hb List.not_mem_nil
  · exact fun b hb => absurd hb List.not_mem_nil
  · exact fun r hr => absurd hr List.not_mem_nil
  · rw [hholdings]
    exact fun r hr => absurd hr List.not_mem_nil
  · rw [hholdings]
    exact List.Pairwise.nil
  · intro hs
    cases hs

/-- **The invariant holds in every run** of calls that meet the condition. -/
theorem heapInv_always {depth : ℕ} {memory : Cells} (hstart : 0 < start) {calls : List AllocCall}
    (h : Each (heapStep supply depth) (CallFits supply) (started memory start) calls) :
    Always (heapStep supply depth) (fun p => HeapInv start p.heap p.live) (started memory start)
      calls := by
  have hstep : ∀ p call p', HeapInv start p.heap p.live → CallFits supply p call →
      heapStep supply depth p call = some p' → HeapInv start p'.heap p'.live :=
    fun p call p' hp hfits hstep => hp.step hstart hfits hstep
  exact always_of_each hstep (started_inv hstart) h

/-- **The blocks of `malloc`.** In every run, from the uninitialised allocator on, whose calls
meet the condition, the live blocks have their bytes in every state. -/
theorem blocks_separated {depth : ℕ} {memory : Cells} (hstart : 0 < start)
    {calls : List AllocCall}
    (h : Each (heapStep supply depth) (CallFits supply) (started memory start) calls) :
    Always (heapStep supply depth) (Separated start) (started memory start) calls :=
  (heapInv_always hstart h).mono fun _ hp => hp.separated

/-- Blocks of all kinds, one freed and taken again, one that has become larger. -/
theorem blocks_separated_mixed : Always (heapStep (fun _ _ => true) 1) (Separated 4096)
    (started (fun _ => 0) 4096) [.malloc 8, .malloc 5000, .malloc 100, .write 4128 3 7,
      .free 4128, .realloc 4136 200, .malloc 5, .realloc 69680 6000, .free 69680] :=
  blocks_separated (by decide) (by decide +kernel)

/-- **A block of two pages** has no room for its header: its last 16 bytes are behind the
break. -/
theorem pages_overrun : ∃ p, run (heapStep (fun _ _ => true) 1) (started (fun _ => 0) 4096)
    [.malloc 8192] = some p ∧ ¬ Separated 4096 p := by
  have hrun : (run (heapStep (fun _ _ => true) 1) (started (fun _ => 0) 4096)
      [.malloc 8192]).map (fun p => (p.live, p.heap.brk)) =
      some ([⟨4144, 8192, some 8192⟩], 12320) := by decide +kernel
  obtain ⟨p, hp, heq⟩ := Option.map_eq_some_iff.mp hrun
  rw [Prod.mk.injEq] at heq
  refine ⟨p, hp, fun h => ?_⟩
  have hobtained := (h.obtained ⟨4144, 8192, some 8192⟩ (by rw [heq.1]; decide)).2
  rw [heq.2] at hobtained
  exact absurd hobtained (by decide)

end

end PrismaticOS.Libc
