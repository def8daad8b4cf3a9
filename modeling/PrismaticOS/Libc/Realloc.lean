import PrismaticOS.Libc.MallocBlocks

/-!
# What `realloc` keeps

Whether the bytes of a block are still there after `realloc`, whatever they are.

## The model

`Allocator.fill` puts other bytes into a block. `malloc` does not look at them (`malloc_fill`),
so that what is said of one contents of a block is said of all.

## What is proved

* `contents_kept` — in every state of a run whose calls meet `CallFits`, `realloc` keeps the
  bytes of a block, whatever they are, exactly if they are copied: the block is large, or no more
  than 8 bytes of it have to be kept, or the guess at its size is high enough, or there is no
  memory.
* `byte_lost` — of a block of 100 bytes that becomes larger 8 are kept.
-/

namespace PrismaticOS.Libc

open PrismaticOS.Library

section
variable {supply : Supply} {start : ℕ} {s s' : Allocator} {live : List Block} {b : Block}
  {bytes : ℕ → UInt8} {n i a v : ℕ}

/-! ### The contents of a block -/

/-- The block `b` holds other bytes. -/
def Allocator.fill (s : Allocator) (b : Block) (bytes : ℕ → UInt8) : Allocator :=
  { s with memory := fillCells s.memory b.ptr b.size fun i => (bytes i).toNat }

/-- The result of a call, with other bytes in the block `b`. -/
def fillResult (r : Allocator × ℕ) (b : Block) (bytes : ℕ → UInt8) : Allocator × ℕ :=
  (r.1.fill b bytes, r.2)

@[simp] theorem fill_initialized : (s.fill b bytes).initialized = s.initialized := rfl

@[simp] theorem fill_brk : (s.fill b bytes).brk = s.brk := rfl

@[simp] theorem fill_sbrks : (s.fill b bytes).sbrks = s.sbrks := rfl

@[simp] theorem fill_sizeClasses : (s.fill b bytes).sizeClasses = s.sizeClasses := rfl

theorem fill_statics (s : Allocator) (b : Block) (bytes : ℕ → UInt8) :
    Statics s (s.fill b bytes) := statics_memory s _

theorem fill_onlyIn (s : Allocator) (b : Block) (bytes : ℕ → UInt8) :
    OnlyIn b.payload s.memory (s.fill b bytes).memory := fun _ hx => if_pos hx

/-- They are there. -/
theorem fill_in (s : Allocator) (bytes : ℕ → UInt8) (h : i < b.size) :
    (s.fill b bytes).memory (b.ptr + i) = (bytes i).toNat := by
  exact fillCells_in (f := fun i => (bytes i).toNat) h

theorem HeapInv.fill (h : HeapInv start s (b :: live)) :
    HeapInv start (s.fill b bytes) (b :: live) :=
  h.frame_block (fill_statics s b bytes) (fill_onlyIn s b bytes) (.refl _)

/-- A word beside the block. -/
theorem load_fill (h : (⟨a, 8⟩ : Range).Apart b.payload) : (s.fill b bytes).load a = s.load a :=
  loadWord_congr ((fill_onlyIn s b bytes).agreeOn h)

theorem store_fill (h : (⟨a, 8⟩ : Range).Apart b.payload) :
    (s.fill b bytes).store a v = (s.store a v).fill b bytes := by
  have hbeside : a + 8 ≤ b.ptr ∨ b.ptr + b.size ≤ a := h
  simp only [Allocator.store, Allocator.fill, storeWord_fillCells hbeside]

/-- The word of a range that is apart from the block. -/
theorem word_apart {r : Range} (h : r.Apart b.payload) {k : ℕ} (hk : k + 8 ≤ r.size) :
    (⟨r.start + k, 8⟩ : Range).Apart b.payload :=
  h.mono ⟨Nat.le_add_right .., by simp only [Range.stop]; omega⟩ (.refl _)

/-- The arena is the same. -/
theorem fill_arena (s : Allocator) (bytes : ℕ → UInt8) (h : (⟨a, 32⟩ : Range).Apart b.payload) :
    (s.fill b bytes).chunks a = s.chunks a ∧ (s.fill b bytes).chunkSize a = s.chunkSize a ∧
      (s.fill b bytes).used a = s.used a :=
  arena_congr ((fill_onlyIn s b bytes).agreeOn h)

theorem withChunk_fill (h : (⟨a, 32⟩ : Range).Apart b.payload) :
    (s.fill b bytes).withChunk a = (s.withChunk a).fill b bytes := by
  have hfield : ∀ k, k + 8 ≤ 32 → (⟨a + k, 8⟩ : Range).Apart b.payload := fun k hk =>
    word_apart h hk
  have hgranted : (s.fill b bytes).granted chunkBytes = (s.granted chunkBytes).fill b bytes := rfl
  rw [Allocator.withChunk, hgranted, store_fill (hfield 8 (by decide)),
    store_fill (hfield 16 (by decide)), store_fill (hfield 24 (by decide))]
  rfl

theorem withHeader_fill (h : b.payload.stop ≤ s.brk) :
    (s.fill b bytes).withHeader n = (s.withHeader n).fill b bytes := by
  have hgranted : (s.fill b bytes).granted n = (s.granted n).fill b bytes := rfl
  rw [Allocator.withHeader, hgranted, fill_brk, store_fill (.inr h),
    store_fill (.inr (h.trans (Nat.le_add_right ..)))]
  rfl

theorem withArena_fill (h : b.payload.stop ≤ s.brk) :
    (s.fill b bytes).withArena = s.withArena.fill b bytes := by
  have hfield : ∀ k, (⟨s.brk + k, 8⟩ : Range).Apart b.payload := fun k =>
    .inr (h.trans (Nat.le_add_right ..))
  have hmain : ({ (s.fill b bytes).granted 32 with mainArena := s.brk } : Allocator) =
      ({ s.granted 32 with mainArena := s.brk } : Allocator).fill b bytes := rfl
  rw [Allocator.withArena, fill_brk, hmain, store_fill (.inr h), store_fill (hfield 8),
    store_fill (hfield 16), store_fill (hfield 24)]
  rfl

/-! ### `malloc` does not look at it -/

theorem ensureChunk_fill (h : (⟨a, 32⟩ : Range).Apart b.payload) :
    ensureChunk supply (s.fill b bytes) a =
      ((ensureChunk supply s a).1.fill b bytes, (ensureChunk supply s a).2) := by
  obtain ⟨hchunks, hsize, hused⟩ := fill_arena s bytes h
  rcases ensureChunk_cases supply s a with ⟨hno, hsupply, heq⟩ | ⟨hno, heq⟩ | ⟨hno, hsupply, heq⟩
  · rw [Allocator.NoRoom] at hno
    rw [heq, ensureChunk, hchunks, hsize, hused, if_pos hno, sbrk, fill_sbrks, hsupply]
    rfl
  · rw [Allocator.NoRoom] at hno
    rw [heq, ensureChunk, hchunks, hsize, hused, if_neg hno]
  · rw [Allocator.NoRoom] at hno
    rw [heq, ← withChunk_fill h, ensureChunk, hchunks, hsize, hused, if_pos hno, sbrk, fill_sbrks,
      hsupply]
    rfl

theorem allocLarge_fill (h : b.payload.stop ≤ s.brk) :
    allocLarge supply (s.fill b bytes) n = fillResult (allocLarge supply s n) b bytes := by
  rcases large_cases supply s n with ⟨hsupply, heq⟩ | ⟨hsupply, heq⟩
  · rw [heq, allocLarge, sbrk, fill_sbrks, hsupply]
    rfl
  · rw [heq, fillResult, ← withHeader_fill h, allocLarge, sbrk, fill_sbrks, hsupply]
    rfl

theorem initAllocator_fill (h : b.payload.stop ≤ s.brk) :
    initAllocator supply (s.fill b bytes) = (initAllocator supply s).fill b bytes := by
  rcases init_cases supply s with ⟨hs, heq⟩ | ⟨hs, hsupply, heq⟩ | ⟨hs, hsupply, heq⟩
  · rw [heq, initAllocator, fill_initialized, if_pos hs]
  · rw [heq, initAllocator, fill_initialized, hs, sbrk, fill_sbrks, hsupply]
    rfl
  · rw [heq, ← withArena_fill h, initAllocator, fill_initialized, hs, sbrk, fill_sbrks, hsupply]
    rfl

theorem HeapInv.payload_apart (h : HeapInv start s (b :: live)) {r : Range} (hr : r ∈ s.own) :
    r.Apart b.payload :=
  (h.own_apart List.mem_cons_self hr).symm.mono (.refl _)
    (payload_within (h.large b List.mem_cons_self))

theorem HeapInv.payload_stop (h : HeapInv start s (b :: live)) : b.payload.stop ≤ s.brk :=
  (payload_within (h.large b List.mem_cons_self)).2.trans (h.within _ List.mem_cons_self).2

theorem HeapInv.allocFromSizeClass_fill (h : HeapInv start s (b :: live))
    (hs : s.initialized = true) (i : ℕ) :
    allocFromSizeClass supply (s.fill b bytes) i =
      fillResult (allocFromSizeClass supply s i) b bytes := by
  have harena : s.arena.Apart b.payload := h.payload_apart (arena_mem hs)
  have hmain := h.classes.arena hs i
  by_cases hfree : (s.sizeClasses i).freeList ≠ 0 ∧ 0 < (s.sizeClasses i).freeCount
  · have hzero := h.classes.array_class hfree.1
    subst hzero
    have hcount : s.freeCount ≤ 64 := h.count
    have hpos : 0 < s.freeCount := hfree.2
    have hword : (⟨s.freeList + 8 * (s.freeCount - 1), 8⟩ : Range).Apart b.payload :=
      word_apart (h.payload_apart (array_mem hfree.1)) (by simp only [Allocator.array]; omega)
    have hfree' : ((s.fill b bytes).sizeClasses 0).freeList ≠ 0 ∧
        0 < ((s.fill b bytes).sizeClasses 0).freeCount := hfree
    rw [pop_eq hfree, pop_eq hfree', fill_sizeClasses]
    exact congrArg (Prod.mk _) (load_fill hword)
  · rw [allocFromSizeClass, allocFromSizeClass]
    simp only [fill_sizeClasses, if_neg hfree, hmain, ensureChunk_fill harena]
    cases hchunk : ensureChunk supply s s.mainArena with
    | mk t room =>
      cases room with
      | false => rfl
      | true =>
        obtain ⟨hchunks, -, hused⟩ := fill_arena t bytes harena
        have hstore : (t.fill b bytes).store (s.mainArena + 24)
            (t.used s.mainArena + (s.sizeClasses i).size) =
              (t.store (s.mainArena + 24) (t.used s.mainArena + (s.sizeClasses i).size)).fill
                b bytes := store_fill (word_apart harena le_rfl)
        simp only [hchunks, hused]
        exact Prod.ext hstore rfl

/-- **`malloc` does not look at the bytes of a block.** -/
theorem HeapInv.malloc_fill (h : HeapInv start s (b :: live)) :
    Libc.malloc supply (s.fill b bytes) n = fillResult (Libc.malloc supply s n) b bytes := by
  have hinit : HeapInv start (initAllocator supply s) (b :: live) := h.init
  have hsame : initAllocator supply (s.fill b bytes) = (initAllocator supply s).fill b bytes :=
    initAllocator_fill h.payload_stop
  by_cases hn : n = 0
  · rw [Libc.malloc, Libc.malloc, if_pos hn, if_pos hn]
    rfl
  · rcases malloc_cases supply h.classes hn with ⟨hs, hsmall, i, hi, heq⟩ | ⟨hlarge, heq⟩
    · rw [heq, ← hinit.allocFromSizeClass_fill hs, Libc.malloc, if_neg hn, if_pos hsmall, hsame]
      have hfind : findSizeClass ((initAllocator supply s).fill b bytes) n = some i := hi
      simp only [hfind]
    · rw [heq, ← allocLarge_fill hinit.payload_stop]
      have hfill : HeapInv start (s.fill b bytes) (b :: live) := h.fill
      rcases malloc_cases supply hfill.classes hn with ⟨hs, hsmall, -⟩ | ⟨-, heq'⟩
      · rw [hsame, fill_initialized] at hs
        exact absurd ⟨hs, hsmall⟩ hlarge
      · rw [heq', hsame]

/-! ### What is copied -/

/-- There is room for a header before a block. -/
theorem HeapInv.position (h : HeapInv start s (b :: live)) : 16 ≤ b.ptr := by
  cases hlarge : b.large with
  | none => exact (h.small b List.mem_cons_self hlarge).2
  | some k => exact (h.large b List.mem_cons_self k hlarge).position

/-- The guess at the size of a block does not depend on its bytes. -/
theorem HeapInv.oldSize_fill (h : HeapInv start s (b :: live)) :
    oldSize (s.fill b bytes) b.ptr = oldSize s b.ptr := by
  have hposition := h.position
  have hword : ∀ k, 8 ≤ k → k ≤ 16 → (s.fill b bytes).load (b.ptr - k) = s.load (b.ptr - k) := by
    intro k hlow hhigh
    apply load_fill
    left
    simp only [Range.stop, Block.payload]
    omega
  simp only [oldSize, Allocator.HasMagic, hword 8 le_rfl (by decide), hword 16 (by decide) le_rfl]
  rfl

/-- Whether a block is large enough for its bytes to be kept: a large one is, and of a small one
`realloc` copies what it takes for its size. -/
def CopyFits (supply : Supply) (s : Allocator) (b : Block) (n : ℕ) : Prop :=
  b.large.isSome ∨ Refused supply s n ∨ min b.size n ≤
    if s.HasMagic b.ptr then (s.load (b.ptr - 16) + 2 ^ 64 - 16) % 2 ^ 64 else minSizeClass

instance : Decidable (CopyFits supply s b n) :=
  inferInstanceAs (Decidable (b.large.isSome ∨ Refused supply s n ∨ min b.size n ≤
    if s.HasMagic b.ptr then (s.load (b.ptr - 16) + 2 ^ 64 - 16) % 2 ^ 64 else minSizeClass))

theorem HeapInv.copyFits_iff (h : HeapInv start s (b :: live)) (hn : n ≠ 0) :
    CopyFits supply s b n ↔
      (Libc.malloc supply s n).2 = 0 ∨ min b.size n ≤ oldSize s b.ptr := by
  have hhead : b ∈ b :: live := List.mem_cons_self
  rw [CopyFits, h.malloc_eq_zero_iff hn]
  cases hlarge : b.large with
  | none =>
    have hsmall : oldSize s b.ptr = if s.HasMagic b.ptr then
        (s.load (b.ptr - 16) + 2 ^ 64 - 16) % 2 ^ 64 else minSizeClass := by
      by_cases hmagic : s.HasMagic b.ptr
      · rw [oldSize, if_pos hmagic, if_pos hmagic]
      · rw [oldSize_small h.classes (h.small b hhead hlarge).1 hmagic, if_neg hmagic]
        rfl
    rw [hsmall]
    simp
  | some k =>
    have hblock := h.large b hhead k hlarge
    have hroom := hblock.room
    have hsize : min b.size n ≤ oldSize s b.ptr := by
      rw [oldSize_large hblock]
      omega
    exact iff_of_true (.inl rfl) (.inr hsize)

/-- The bytes of a new block that are not copied. -/
theorem moveBlock_out {t : Allocator} {ptr q : ℕ} (hmove : moveBlock supply s ptr n = (t, q))
    (hq : q ≠ 0) : (malloc supply s n).2 = q ∧ ∀ i, min (oldSize s ptr) n ≤ i →
      t.memory (q + i) = (malloc supply s n).1.memory (q + i) := by
  rw [moveBlock] at hmove
  cases hmalloc : malloc supply s n with
  | mk u r =>
    rw [hmalloc] at hmove
    have hr : r ≠ 0 := by
      rintro rfl
      cases hmove
      exact hq rfl
    simp only [if_neg hr, Prod.mk.injEq] at hmove
    obtain ⟨rfl, rfl⟩ := hmove
    exact ⟨rfl, fun i hi => copyCells_out (.inr (Nat.add_le_add_left hi _))⟩

/-- **What is copied is kept.** -/
theorem HeapInv.keeps_copied (h : HeapInv start s (b :: live)) (hstart : 0 < start) (hn : n ≠ 0)
    (hfits : ReallocFits supply s b n) (depth : ℕ)
    (hcopy : (Libc.malloc supply s n).2 = 0 ∨ min b.size n ≤ oldSize s b.ptr) :
    ∃ s' q, Libc.realloc supply (depth + 1) s b.ptr n = some (s', q) ∧
      (q = 0 → HeapInv start s' (b :: live) ∧ AgreeOn s.memory s'.memory b.ptr b.size) ∧
      (q ≠ 0 → ∀ i < min b.size n, s'.memory (q + i) = s.memory (b.ptr + i)) := by
  have hroom := hfits
  rw [ReallocFits, if_neg hn] at hroom
  rcases h.realloc_cases hstart hn hfits depth with
    ⟨-, heq⟩ | ⟨hkeep, t, hmalloc, heq⟩ | ⟨hkeep, t, q, s', hq, hmove, heq, -, -, hbytes⟩
  · exact ⟨s, b.ptr, heq, fun hnull => absurd hnull (h.ptr_ne_zero hstart), fun _ _ _ => rfl⟩
  · rw [if_neg hkeep] at hroom
    obtain ⟨hinv, hkeeps⟩ := h.malloc hroom.1
    rw [hmalloc] at hinv hkeeps
    exact ⟨t, 0, heq, fun _ => ⟨hinv, hkeeps b List.mem_cons_self⟩, fun hne => absurd rfl hne⟩
  · rw [if_neg hkeep] at hroom
    obtain ⟨-, -, hcopied⟩ := h.moveBlock hroom.1 hmove hq
    have hsize := hcopy.resolve_left ((moveBlock_out hmove hq).1.trans_ne hq)
    refine ⟨s', q, heq, fun hnull => absurd hnull hq, fun _ i hi => ?_⟩
    have hlt : i < (newBlock t q n).size := hi.trans_le (min_le_right ..)
    have hnew : s'.memory (q + i) = t.memory (q + i) :=
      hbytes (newBlock t q n) List.mem_cons_self (q + i) (Nat.le_add_right ..)
        (Nat.add_lt_add_left hlt q)
    rw [hnew]
    exact hcopied i hi (hi.trans_le hsize)

/-- **What is not copied is lost**: bytes can be found that the new block does not have. -/
theorem HeapInv.loses_uncopied (h : HeapInv start s (b :: live)) (hstart : 0 < start)
    (hn : n ≠ 0) (hfits : ∀ bytes, ReallocFits supply (s.fill b bytes) b n) (depth : ℕ)
    (hnew : (Libc.malloc supply s n).2 ≠ 0) (hsize : oldSize s b.ptr < min b.size n) :
    ∃ bytes s' q, Libc.realloc supply (depth + 1) (s.fill b bytes) b.ptr n = some (s', q) ∧
      q ≠ 0 ∧ s'.memory (q + oldSize s b.ptr) ≠
        (s.fill b bytes).memory (b.ptr + oldSize s b.ptr) := by
  have hlt : oldSize s b.ptr < b.size := hsize.trans_le (min_le_left ..)
  have hlt' : oldSize s b.ptr < n := hsize.trans_le (min_le_right ..)
  cases hmalloc : Libc.malloc supply s n with
  | mk u r =>
    rw [hmalloc] at hnew
    -- a byte that is not there in the new block
    obtain ⟨byte, hbyte⟩ : ∃ byte : UInt8, byte.toNat ≠ u.memory (r + oldSize s b.ptr) := by
      by_cases hzero : u.memory (r + oldSize s b.ptr) = 0
      · exact ⟨1, by rw [hzero]; decide⟩
      · exact ⟨0, Ne.symm hzero⟩
    have hfill : HeapInv start (s.fill b fun _ => byte) (b :: live) := h.fill
    have hsame : Libc.malloc supply (s.fill b fun _ => byte) n = (u.fill b fun _ => byte, r) := by
      rw [h.malloc_fill, hmalloc]
      rfl
    have hold : oldSize (s.fill b fun _ => byte) b.ptr = oldSize s b.ptr := h.oldSize_fill
    have hroom := hfits fun _ => byte
    rw [ReallocFits, if_neg hn] at hroom
    rcases hfill.realloc_cases hstart hn (hfits fun _ => byte) depth with
      ⟨hkeep, -⟩ | ⟨-, t, hnull, -⟩ | ⟨hkeep, t, q, s', hq, hmove, heq, -, -, hbytes⟩
    · rw [hold] at hkeep
      exact absurd hlt' (not_lt.mpr hkeep)
    · rw [hsame, Prod.mk.injEq] at hnull
      exact absurd hnull.2 hnew
    · rw [if_neg hkeep] at hroom
      obtain ⟨hboth, -, -⟩ := hfill.moveBlock hroom.1 hmove hq
      obtain ⟨hptr, hout⟩ := moveBlock_out hmove hq
      rw [hsame] at hptr hout
      have hrq : r = q := hptr
      subst hrq
      refine ⟨fun _ => byte, s', r, heq, hq, ?_⟩
      have hkept : s'.memory (r + oldSize s b.ptr) = t.memory (r + oldSize s b.ptr) :=
        hbytes (newBlock t r n) List.mem_cons_self _ (Nat.le_add_right ..)
          (Nat.add_lt_add_left hlt' r)
      have hcell : t.memory (r + oldSize s b.ptr) =
          (u.fill b fun _ => byte).memory (r + oldSize s b.ptr) :=
        hout _ (by rw [hold]; exact min_le_left ..)
      have hapart : b.payload.Apart (newBlock t r n).payload :=
        ((List.pairwise_cons.mp hboth.apart).1 _ List.mem_cons_self).mono
          (payload_within (hboth.large b List.mem_cons_self))
          (payload_within (hboth.large _ (List.mem_cons_of_mem _ List.mem_cons_self)))
      have houtside : (u.fill b fun _ => byte).memory (r + oldSize s b.ptr) =
          u.memory (r + oldSize s b.ptr) := by
        apply fill_onlyIn u b fun _ => byte
        rcases hapart with hapart | hapart
        · exact .inr (hapart.trans (Nat.le_add_right ..))
        · exact .inl ((Nat.add_lt_add_left hlt' r).trans_le hapart)
      have hthere : (s.fill b fun _ => byte).memory (b.ptr + oldSize s b.ptr) = byte.toNat :=
        fill_in s (fun _ => byte) hlt
      rw [hkept, hcell, houtside, hthere]
      exact hbyte.symm

/-! ### Every block of every run -/

/-- The block `b` holds other bytes. -/
def Process.fill (p : Process) (b : Block) (bytes : ℕ → UInt8) : Process :=
  ⟨p.heap.fill b bytes, p.live⟩

/-- What `realloc` of the block `b` for `n` bytes promises about its result `r`: the new block
begins with the bytes of the old one, as many as there are in both, and without a new block the
old one is live as it was. -/
def ContentsKept (start : ℕ) (p : Process) (b : Block) (n : ℕ) (r : Allocator × ℕ) : Prop :=
  if r.2 = 0 then
    Separated start ⟨r.1, p.live⟩ ∧ AgreeOn p.heap.memory r.1.memory b.ptr b.size
  else ∀ i < min b.size n, r.1.memory (r.2 + i) = p.heap.memory (b.ptr + i)

/-- **The contents of a block.** In every state of a run whose calls meet the condition, `realloc`
keeps the bytes of a live block, whatever they are, exactly if they are copied. -/
theorem contents_kept {depth depth' : ℕ} {memory : Cells} {calls : List AllocCall} {p : Process}
    (hstart : 0 < start)
    (h : Each (heapStep supply depth) (CallFits supply) (started memory start) calls)
    (hrun : run (heapStep supply depth) (started memory start) calls = some p) (hb : b ∈ p.live)
    (hn : n ≠ 0) (hfits : ∀ bytes, ReallocFits supply (p.heap.fill b bytes) b n) :
    (∀ bytes, ∃ r, realloc supply (depth' + 1) (p.heap.fill b bytes) b.ptr n = some r ∧
        ContentsKept start (p.fill b bytes) b n r) ↔ CopyFits supply p.heap b n := by
  have hperm : (b :: p.live.erase b).Perm p.live := (List.perm_cons_erase hb).symm
  have hinv : HeapInv start p.heap (b :: p.live.erase b) :=
    ((heapInv_always hstart h).of_run hrun).perm hperm.symm
  rw [hinv.copyFits_iff hn]
  constructor
  · intro hall
    by_contra hnot
    obtain ⟨hnew, hsize⟩ := not_or.mp hnot
    obtain ⟨bytes, s', q, heq, hq, hlost⟩ :=
      hinv.loses_uncopied hstart hn hfits depth' hnew (not_le.mp hsize)
    obtain ⟨r, hr, hkept⟩ := hall bytes
    rw [heq, Option.some.injEq] at hr
    subst hr
    rw [ContentsKept, if_neg hq] at hkept
    exact hlost (hkept _ (not_le.mp hsize))
  · intro hcopy bytes
    have hfill : HeapInv start (p.heap.fill b bytes) (b :: p.live.erase b) := hinv.fill
    have hcopy' : (malloc supply (p.heap.fill b bytes) n).2 = 0 ∨
        min b.size n ≤ oldSize (p.heap.fill b bytes) b.ptr := by
      rw [hinv.malloc_fill, hinv.oldSize_fill]
      exact hcopy
    obtain ⟨s', q, heq, hnull, hnew⟩ := hfill.keeps_copied hstart hn (hfits bytes) depth' hcopy'
    refine ⟨(s', q), heq, ?_⟩
    rw [ContentsKept]
    split_ifs with hq
    · obtain ⟨hheap, hbytes⟩ := hnull hq
      have hlive : HeapInv start s' p.live := hheap.perm hperm
      exact ⟨hlive.separated, hbytes⟩
    · exact hnew hq

/-- A large block can be moved to new pages. -/
theorem HeapInv.reallocFits_large (h : HeapInv start s (b :: live)) {k : ℕ}
    (hlarge : b.large = some k) (hn : maxSmallSize < n) (hfit : n + 16 ≤ pageRound n) :
    ReallocFits supply s b n := by
  have hne : n ≠ 0 := Nat.ne_zero_of_lt hn
  have hfits : MallocFits supply s n := by
    refine .inr ?_
    rw [HasRoom, if_neg fun hsmall => absurd hsmall.2 (not_le.mpr hn)]
    exact .inr hfit
  rw [ReallocFits, if_neg hne]
  by_cases hkeep : n ≤ oldSize s b.ptr
  · rw [if_pos hkeep]
    refine .inr fun hsmall => ?_
    rw [hlarge] at hsmall
    cases hsmall
  · rw [if_neg hkeep]
    refine ⟨hfits, fun hq => ?_⟩
    obtain ⟨hinv, -, -⟩ := h.moveBlock hfits rfl hq
    exact .inl (hinv.large b List.mem_cons_self k hlarge).magic

/-- A block of two pages is moved to three. -/
theorem contents_kept_pages : ∃ p, run (heapStep (fun _ _ => true) 1)
    (started (fun _ => 0) 4096) [.malloc 5000] = some p ∧ ∀ bytes, ∃ r,
      realloc (fun _ _ => true) 1 (p.heap.fill ⟨4144, 5000, some 8192⟩ bytes) 4144 9000 = some r ∧
        ContentsKept 4096 (p.fill ⟨4144, 5000, some 8192⟩ bytes) ⟨4144, 5000, some 8192⟩ 9000 r := by
  have hrun : (run (heapStep (fun _ _ => true) 1) (started (fun _ => 0) 4096)
      [.malloc 5000]).map Process.live = some [⟨4144, 5000, some 8192⟩] := by decide +kernel
  have hcalls : Each (heapStep (fun _ _ => true) 1) (CallFits fun _ _ => true)
      (started (fun _ => 0) 4096) [.malloc 5000] := by decide +kernel
  obtain ⟨p, hp, hlive⟩ := Option.map_eq_some_iff.mp hrun
  have hinv : HeapInv 4096 p.heap [⟨4144, 5000, some 8192⟩] := by
    rw [← hlive]
    exact (heapInv_always (by decide) hcalls).of_run hp
  have hfits : ∀ bytes, ReallocFits (fun _ _ => true)
      (p.heap.fill ⟨4144, 5000, some 8192⟩ bytes) ⟨4144, 5000, some 8192⟩ 9000 :=
    fun bytes => hinv.fill.reallocFits_large rfl (by decide) (by decide)
  have hmem : ⟨4144, 5000, some 8192⟩ ∈ p.live := by
    rw [hlive]
    exact List.mem_cons_self
  exact ⟨p, hp, (contents_kept (by decide) hcalls hp hmem (by decide) hfits).mpr (.inl rfl)⟩

/-- **A block of 100 bytes** loses the fiftieth when it becomes larger. -/
theorem byte_lost : ∃ p r, run (heapStep (fun _ _ => true) 1) (started (fun _ => 0) 4096)
    [.malloc 100, .write 4128 50 7] = some p ∧ ⟨4128, 100, none⟩ ∈ p.live ∧
      realloc (fun _ _ => true) 1 p.heap 4128 200 = some r ∧ r.2 ≠ 0 ∧
        ¬ ContentsKept 4096 p ⟨4128, 100, none⟩ 200 r := by
  have hrun : ((run (heapStep (fun _ _ => true) 1) (started (fun _ => 0) 4096)
      [.malloc 100, .write 4128 50 7]).bind fun p =>
        (realloc (fun _ _ => true) 1 p.heap 4128 200).map fun r =>
          (p.live, r.2, r.1.memory (r.2 + 50), p.heap.memory (4128 + 50))) =
      some ([⟨4128, 100, none⟩], 4256, 0, 7) := by decide +kernel
  obtain ⟨p, hp, hcall⟩ := Option.bind_eq_some_iff.mp hrun
  obtain ⟨r, hr, heq⟩ := Option.map_eq_some_iff.mp hcall
  simp only [Prod.mk.injEq] at heq
  obtain ⟨hlive, hptr, hnew, hold⟩ := heq
  have hne : r.2 ≠ 0 := by
    rw [hptr]
    decide
  refine ⟨p, r, hp, by rw [hlive]; exact List.mem_cons_self, hr, hne, fun hkept => ?_⟩
  rw [ContentsKept, if_neg hne] at hkept
  have hbyte := hkept 50 (by decide)
  rw [hnew, hold] at hbyte
  cases hbyte

end

end PrismaticOS.Libc
