import PrismaticOS.Libc.Carving

/-!
# The ranges of the allocator

What is in use of the memory that `sbrk` gave: the live blocks, the arena, the array of free
blocks of the first class, and the blocks in it.

## What is proved

* `HeapInv` — the ranges in use are apart from each other and from the rest of the chunk.
* `HeapInv.of_statics`, `HeapInv.cons`, `HeapInv.shrink`, `HeapInv.perm`, `HeapInv.tail` — how it
  is kept.
-/

namespace PrismaticOS.Libc

open PrismaticOS.Library

/-! ### Ranges in use -/

/-- The range of a block: a small one has 8 bytes at least, and a large one has its header. -/
def Block.range (b : Block) : Range :=
  match b.large with
  | none => ⟨b.ptr, max b.size 8⟩
  | some n => ⟨b.ptr - 16, n⟩

/-- The bytes that were asked for. -/
def Block.payload (b : Block) : Range := ⟨b.ptr, b.size⟩

/-- The header of a large block. -/
def Block.header (b : Block) : Range := ⟨b.ptr - 16, 16⟩

/-- The array of free blocks of the first class. -/
def Allocator.freeList (s : Allocator) : ℕ := (s.sizeClasses 0).freeList

/-- How many there are. -/
def Allocator.freeCount (s : Allocator) : ℕ := (s.sizeClasses 0).freeCount

/-- The bytes of the array. -/
def Allocator.array (s : Allocator) : Range := ⟨s.freeList, 512⟩

/-- The bytes of the arena. -/
def Allocator.arena (s : Allocator) : Range := ⟨s.mainArena, 32⟩

/-- The free blocks. -/
def Allocator.freeBlocks (s : Allocator) : List Range :=
  (List.range s.freeCount).map fun i => ⟨s.load (s.freeList + 8 * i), 8⟩

/-- What the allocator uses for itself, and the free blocks. -/
def Allocator.own (s : Allocator) : List Range :=
  (if s.initialized then [s.arena] else []) ++
    ((if s.freeList = 0 then [] else [s.array]) ++ s.freeBlocks)

/-- All that is in use. -/
def Allocator.holdings (s : Allocator) (live : List Block) : List Range :=
  live.map Block.range ++ s.own

/-- The rest of the chunk. -/
def Allocator.rest (s : Allocator) : Range :=
  ⟨s.chunks s.mainArena + s.used s.mainArena, chunkBytes - s.used s.mainArena⟩

/-- A large block has its header, and room for what was asked for. -/
structure LargeOk (s : Allocator) (b : Block) (n : ℕ) : Prop where
  /-- The size in the header. -/
  size : s.load (b.ptr - 16) = n
  /-- The magic word. -/
  magic : s.HasMagic b.ptr
  /-- The room. -/
  room : b.size + 16 ≤ n
  /-- There is more than the header. -/
  page : 16 < n
  /-- The header is before the block. -/
  position : 16 ≤ b.ptr
  /-- The size has 64 bits. -/
  bound : n < 2 ^ 64

/-- A chunk with room is from `sbrk`, and its rest is not in use. -/
structure ChunkOk (start : ℕ) (s : Allocator) (live : List Block) : Prop where
  /-- `chunk_size`. -/
  size : s.chunkSize s.mainArena = chunkBytes
  /-- All sizes are multiples of 8. -/
  used : 8 ∣ s.used s.mainArena
  /-- It is not before the first break, and there is room for a header before it. -/
  low : max start 16 ≤ s.chunks s.mainArena
  /-- It is not behind the break. -/
  high : s.chunks s.mainArena + chunkBytes ≤ s.brk
  /-- Its rest is free. -/
  rest : ∀ r ∈ s.holdings live, r.Apart s.rest

/-- **The invariant** of the allocator, where `start` is the first break. -/
structure HeapInv (start : ℕ) (s : Allocator) (live : List Block) : Prop where
  /-- The static variables. -/
  classes : ClassesOk s
  /-- The break was not moved back. -/
  low : start ≤ s.brk
  /-- The array has room for 64 blocks. -/
  count : s.freeCount ≤ 64
  /-- Without an array no block is free. -/
  list : s.freeList = 0 → s.freeCount = 0
  /-- Small blocks are from the arena, and there is room for a header before them. -/
  small : ∀ b ∈ live, b.large = none → s.initialized = true ∧ 16 ≤ b.ptr
  /-- So it is with the free ones. -/
  reusable : ∀ r ∈ s.freeBlocks, 16 ≤ r.start
  /-- Large blocks have their headers. -/
  large : ∀ b ∈ live, ∀ n, b.large = some n → LargeOk s b n
  /-- All that is in use is from `sbrk`. -/
  within : ∀ r ∈ s.holdings live, start ≤ r.start ∧ r.stop ≤ s.brk
  /-- There are no overlaps. -/
  apart : (s.holdings live).Pairwise Range.Apart
  /-- The chunk. -/
  chunk : s.initialized = true → ¬ s.NoRoom s.mainArena → ChunkOk start s live

section
variable {start : ℕ} {s s' : Allocator} {live live' : List Block} {b b' : Block} {n : ℕ}

/-! ### How it is kept -/

theorem mem_holdings {r : Range} :
    r ∈ s.holdings live ↔ (∃ b ∈ live, b.range = r) ∨ r ∈ s.own := by
  rw [Allocator.holdings, List.mem_append, List.mem_map]

/-- The live blocks have no order. -/
theorem HeapInv.perm (h : HeapInv start s live) (hp : live.Perm live') :
    HeapInv start s live' := by
  have hholdings : (s.holdings live).Perm (s.holdings live') :=
    (hp.map Block.range).append_right s.own
  constructor
  · exact h.classes
  · exact h.low
  · exact h.count
  · exact h.list
  · exact fun b hb => h.small b (hp.mem_iff.mpr hb)
  · exact h.reusable
  · exact fun b hb => h.large b (hp.mem_iff.mpr hb)
  · exact fun r hr => h.within r (hholdings.mem_iff.mpr hr)
  · exact pairwise_perm h.apart hholdings
  · intro hs hroom
    have hchunk := h.chunk hs hroom
    exact ⟨hchunk.size, hchunk.used, hchunk.low, hchunk.high,
      fun r hr => hchunk.rest r (hholdings.mem_iff.mpr hr)⟩

/-- A block is no longer live. -/
theorem HeapInv.tail (h : HeapInv start s (b :: live)) : HeapInv start s live := by
  have hmem : ∀ r ∈ s.holdings live, r ∈ s.holdings (b :: live) :=
    fun r hr => List.mem_cons_of_mem _ hr
  constructor
  · exact h.classes
  · exact h.low
  · exact h.count
  · exact h.list
  · exact fun b hb => h.small b (List.mem_cons_of_mem _ hb)
  · exact h.reusable
  · exact fun b hb => h.large b (List.mem_cons_of_mem _ hb)
  · exact fun r hr => h.within r (hmem r hr)
  · exact (List.pairwise_cons.mp h.apart).2
  · intro hs hroom
    have hchunk := h.chunk hs hroom
    exact ⟨hchunk.size, hchunk.used, hchunk.low, hchunk.high, fun r hr => hchunk.rest r (hmem r hr)⟩

/-- A new block is live. -/
theorem HeapInv.cons (h : HeapInv start s live) (hlow : start ≤ b.range.start)
    (hhigh : b.range.stop ≤ s.brk) (hsmall : b.large = none → s.initialized = true ∧ 16 ≤ b.ptr)
    (hlarge : ∀ n, b.large = some n → LargeOk s b n)
    (hapart : ∀ r ∈ s.holdings live, b.range.Apart r)
    (hrest : s.initialized = true → ¬ s.NoRoom s.mainArena → b.range.Apart s.rest) :
    HeapInv start s (b :: live) := by
  constructor
  · exact h.classes
  · exact h.low
  · exact h.count
  · exact h.list
  · exact List.forall_mem_cons.mpr ⟨hsmall, h.small⟩
  · exact h.reusable
  · exact List.forall_mem_cons.mpr ⟨hlarge, h.large⟩
  · exact List.forall_mem_cons.mpr ⟨⟨hlow, hhigh⟩, h.within⟩
  · exact List.pairwise_cons.mpr ⟨hapart, h.apart⟩
  · intro hs hroom
    have hchunk := h.chunk hs hroom
    exact ⟨hchunk.size, hchunk.used, hchunk.low, hchunk.high,
      List.forall_mem_cons.mpr ⟨hrest hs hroom, hchunk.rest⟩⟩

/-- What is in use of the first block becomes less. -/
theorem HeapInv.shrink (h : HeapInv start s (b :: live)) (hrange : b'.range.Within b.range)
    (hsmall : b'.large = none → s.initialized = true ∧ 16 ≤ b'.ptr)
    (hlarge : ∀ n, b'.large = some n → LargeOk s b' n) : HeapInv start s (b' :: live) := by
  have hhead : b.range ∈ s.holdings (b :: live) := List.mem_cons_self
  obtain ⟨hlow, hhigh⟩ := h.within _ hhead
  apply h.tail.cons (hlow.trans hrange.1) (hrange.2.trans hhigh) hsmall hlarge
  · exact fun r hr => ((List.pairwise_cons.mp h.apart).1 r hr).mono hrange (.refl r)
  · exact fun hs hroom => ((h.chunk hs hroom).rest _ hhead).mono hrange (.refl _)

/-- The free blocks are kept in the array. -/
theorem freeBlocks_congr (hs : Statics s s') (hcount : s.freeCount ≤ 64)
    (harray : AgreeOn s.memory s'.memory s.freeList 512) : s'.freeBlocks = s.freeBlocks := by
  have hlist : s'.freeList = s.freeList := by rw [Allocator.freeList, hs.sizeClasses]; rfl
  have hsame : s'.freeCount = s.freeCount := by rw [Allocator.freeCount, hs.sizeClasses]; rfl
  rw [Allocator.freeBlocks, hlist, hsame]
  apply List.map_congr_left
  intro i hi
  have hlt := List.mem_range.mp hi
  rw [Allocator.load, loadWord_congr (harray.mono (Nat.le_add_right ..) (by omega))]
  rfl

theorem HeapInv.free_congr (h : HeapInv start s live) (hs : Statics s s')
    (harray : s.freeList ≠ 0 → AgreeOn s.memory s'.memory s.freeList 512) :
    s'.freeBlocks = s.freeBlocks := by
  by_cases hnull : s.freeList = 0
  · have hcount : s'.freeCount = s.freeCount := by rw [Allocator.freeCount, hs.sizeClasses]; rfl
    rw [Allocator.freeBlocks, Allocator.freeBlocks, hcount, h.list hnull]
    rfl
  · exact freeBlocks_congr hs h.count (harray hnull)

/-- The allocator uses the same ranges. -/
theorem HeapInv.own_congr (h : HeapInv start s live) (hs : Statics s s')
    (harray : s.freeList ≠ 0 → AgreeOn s.memory s'.memory s.freeList 512) : s'.own = s.own := by
  have hlist : s'.freeList = s.freeList := by rw [Allocator.freeList, hs.sizeClasses]; rfl
  rw [Allocator.own, Allocator.own, h.free_congr hs harray, hs.initialized, Allocator.arena, hs.mainArena,
    Allocator.array, hlist]
  rfl

theorem LargeOk.congr (h : LargeOk s b n)
    (hm : AgreeOn s.memory s'.memory (b.ptr - 16) 16) : LargeOk s' b n where
  size := by
    rw [Allocator.load, loadWord_congr (hm.mono le_rfl (by omega))]
    exact h.size
  magic := by
    have hpos := h.position
    rw [Allocator.HasMagic, Allocator.load, loadWord_congr (hm.mono (by omega) (by omega))]
    exact h.magic
  room := h.room
  page := h.page
  position := h.position
  bound := h.bound

/-- **The invariant is kept** where the static variables, the array and the headers are, and the
chunk is as it should be. -/
theorem HeapInv.of_statics (h : HeapInv start s live) (hs : Statics s s')
    (harray : s.freeList ≠ 0 → AgreeOn s.memory s'.memory s.freeList 512)
    (hheader : ∀ b ∈ live, b.large.isSome → AgreeOn s.memory s'.memory (b.ptr - 16) 16)
    (hchunk : s'.initialized = true → ¬ s'.NoRoom s'.mainArena →
      s'.holdings live = s.holdings live → ChunkOk start s' live) :
    HeapInv start s' live := by
  have hholdings : s'.holdings live = s.holdings live := by
    rw [Allocator.holdings, h.own_congr hs harray]
    rfl
  constructor
  · exact h.classes.of_statics hs
  · exact h.low.trans hs.brk
  · rw [Allocator.freeCount, hs.sizeClasses]
    exact h.count
  · rw [Allocator.freeList, Allocator.freeCount, hs.sizeClasses]
    exact h.list
  · rw [hs.initialized]
    exact h.small
  · rw [h.free_congr hs harray]
    exact h.reusable
  · exact fun b hb n hn => (h.large b hb n hn).congr (hheader b hb (by rw [hn]; rfl))
  · rw [hholdings]
    exact fun r hr => ⟨(h.within r hr).1, (h.within r hr).2.trans hs.brk⟩
  · rw [hholdings]
    exact h.apart
  · exact fun hinit hroom => hchunk hinit hroom hholdings

/-! ### Writes -/

theorem payload_within (hlarge : ∀ n, b.large = some n → LargeOk s b n) :
    b.payload.Within b.range := by
  unfold Block.range
  split
  · exact ⟨le_rfl, Nat.add_le_add_left (le_max_left ..) _⟩
  · rename_i n hn
    obtain ⟨-, -, hroom, -, hpos, -⟩ := hlarge n hn
    simp only [Range.Within, Range.stop, Block.payload]
    omega

/-- A block is in its range. -/
theorem ptr_mem_range (hlarge : ∀ n, b.large = some n → LargeOk s b n) :
    b.range.start ≤ b.ptr ∧ b.ptr < b.range.stop := by
  unfold Block.range
  split
  · simp only [Range.stop]
    omega
  · rename_i n hn
    obtain ⟨-, -, -, hpage, hpos, -⟩ := hlarge n hn
    simp only [Range.stop]
    omega

/-- Two blocks are not in one place. -/
theorem HeapInv.ptr_ne (h : HeapInv start s (b :: b' :: live)) : b.ptr ≠ b'.ptr := by
  intro heq
  have hb := ptr_mem_range (h.large b List.mem_cons_self)
  have hb' := ptr_mem_range (h.large b' (List.mem_cons_of_mem _ List.mem_cons_self))
  have hapart : b.range.Apart b'.range := (List.pairwise_cons.mp h.apart).1 _ List.mem_cons_self
  rcases hapart with hapart | hapart <;> omega

/-- No block is at `NULL`. -/
theorem HeapInv.ptr_ne_zero (h : HeapInv start s (b :: live)) (hstart : 0 < start) :
    b.ptr ≠ 0 := by
  have hb := ptr_mem_range (h.large b List.mem_cons_self)
  have hlow := (h.within _ List.mem_cons_self).1
  omega

theorem header_within (h : LargeOk s b n) (hn : b.large = some n) : b.header.Within b.range := by
  have hroom := h.room
  rw [Block.range, hn]
  simp only [Range.Within, Range.stop, Block.header]
  omega

theorem arena_mem (hs : s.initialized = true) : s.arena ∈ s.own := by
  rw [Allocator.own, if_pos hs]
  exact List.mem_append_left _ List.mem_cons_self

theorem array_mem (hlist : s.freeList ≠ 0) : s.array ∈ s.own := by
  rw [Allocator.own, if_neg hlist]
  exact List.mem_append_right _ (List.mem_append_left _ List.mem_cons_self)

/-- The live blocks are apart from what the allocator uses. -/
theorem HeapInv.own_apart (h : HeapInv start s live) {r : Range} (hb : b ∈ live)
    (hr : r ∈ s.own) : b.range.Apart r := by
  have hparts := List.pairwise_append.mp h.apart
  exact hparts.2.2 _ (List.mem_map_of_mem hb) _ hr

/-- The arena is apart from the array. -/
theorem HeapInv.arena_apart (h : HeapInv start s live) (hs : s.initialized = true)
    (hlist : s.freeList ≠ 0) : s.arena.Apart s.array := by
  have hown := (List.pairwise_append.mp h.apart).2.1
  rw [Allocator.own, if_pos hs, if_neg hlist] at hown
  exact (List.pairwise_cons.mp hown).1 _ List.mem_cons_self

/-- The header of a live block is apart from what the allocator uses. -/
theorem HeapInv.header_apart (h : HeapInv start s live) {r : Range} (hb : b ∈ live)
    (hlarge : b.large.isSome) (hr : r ∈ s.own) : b.header.Apart r := by
  obtain ⟨n, hn⟩ := Option.isSome_iff_exists.mp hlarge
  exact (h.own_apart hb hr).mono (header_within (h.large b hb n hn) hn) (.refl r)

/-- A part of what is in use ends before the break. -/
theorem HeapInv.stop_le (h : HeapInv start s live) {r : Range} (hr : r ∈ s.own) :
    r.stop ≤ s.brk := (h.within r (mem_holdings.mpr (.inr hr))).2

theorem HeapInv.header_stop_le (h : HeapInv start s live) (hb : b ∈ live)
    (hlarge : b.large.isSome) : b.header.stop ≤ s.brk := by
  obtain ⟨n, hn⟩ := Option.isSome_iff_exists.mp hlarge
  exact (header_within (h.large b hb n hn) hn).2.trans
    (h.within b.range (mem_holdings.mpr (.inl ⟨b, hb, rfl⟩))).2

/-- The fields of the arena are kept with its bytes. -/
theorem arena_congr {A : ℕ} (hm : AgreeOn s.memory s'.memory A 32) :
    s'.chunks A = s.chunks A ∧ s'.chunkSize A = s.chunkSize A ∧ s'.used A = s.used A :=
  ⟨loadWord_congr (hm.mono (by omega) (by omega)), loadWord_congr (hm.mono (by omega) (by omega)),
    loadWord_congr (hm.mono (by omega) (by omega))⟩

theorem rest_congr (hs : Statics s s') (hm : AgreeOn s.memory s'.memory s.mainArena 32) :
    s'.rest = s.rest ∧ (s'.NoRoom s'.mainArena ↔ s.NoRoom s.mainArena) := by
  obtain ⟨hchunks, hsize, hused⟩ := arena_congr hm
  rw [Allocator.rest, Allocator.NoRoom, hs.mainArena, hchunks, hsize, hused]
  exact ⟨rfl, Iff.rfl⟩

/-- The rest of the chunk ends before the break. -/
theorem HeapInv.rest_stop_le (h : HeapInv start s live) (hs : s.initialized = true)
    (hroom : ¬ s.NoRoom s.mainArena) : s.rest.stop ≤ s.brk := by
  obtain ⟨hsize, -, -, hhigh, -⟩ := h.chunk hs hroom
  rw [Allocator.NoRoom, not_or, hsize] at hroom
  simp only [Range.stop, Allocator.rest]
  omega

/-- **A write** outside the arena, the array and the headers keeps the invariant. -/
theorem HeapInv.frame (h : HeapInv start s live) (hs : Statics s s') {r : Range}
    (hm : OnlyIn r s.memory s'.memory) (harena : s.initialized = true → s.arena.Apart r)
    (harray : s.freeList ≠ 0 → s.array.Apart r)
    (hheader : ∀ b ∈ live, b.large.isSome → b.header.Apart r) : HeapInv start s' live := by
  apply h.of_statics hs
  · exact fun hlist => hm.agreeOn (harray hlist)
  · exact fun b hb hlarge => hm.agreeOn (hheader b hb hlarge)
  · intro hinit hroom hholdings
    rw [hs.initialized] at hinit
    have hagree : AgreeOn s.memory s'.memory s.mainArena 32 := hm.agreeOn (harena hinit)
    obtain ⟨hchunks, hsize, hused⟩ := arena_congr hagree
    obtain ⟨hrest, hnoRoom⟩ := rest_congr hs hagree
    obtain ⟨h₁, h₂, h₃, h₄, h₅⟩ := h.chunk hinit (fun hno => hroom (hnoRoom.mpr hno))
    constructor
    · rw [hs.mainArena, hsize, h₁]
    · rw [hs.mainArena, hused]
      exact h₂
    · rw [hs.mainArena, hchunks]
      exact h₃
    · rw [hs.mainArena, hchunks]
      exact h₄.trans hs.brk
    · rw [hrest, hholdings]
      exact h₅

/-- A write behind the break. -/
theorem HeapInv.frame_above (h : HeapInv start s live) (hs : Statics s s')
    (hm : OnlyIn ⟨s.brk, n⟩ s.memory s'.memory) : HeapInv start s' live := by
  apply h.frame hs hm
  · exact fun hinit => .inl (h.stop_le (arena_mem hinit))
  · exact fun hlist => .inl (h.stop_le (array_mem hlist))
  · exact fun b hb hlarge => .inl (h.header_stop_le hb hlarge)

/-- A write to a live block. -/
theorem HeapInv.frame_block (h : HeapInv start s (b :: live)) (hs : Statics s s') {r : Range}
    (hm : OnlyIn r s.memory s'.memory) (hr : r.Within b.payload) :
    HeapInv start s' (b :: live) := by
  have hhead : b ∈ b :: live := List.mem_cons_self
  have hrange : r.Within b.range :=
    have hpayload := payload_within (h.large b hhead)
    ⟨hpayload.1.trans hr.1, hr.2.trans hpayload.2⟩
  apply h.frame hs hm
  · exact fun hinit => ((h.own_apart hhead (arena_mem hinit)).mono hrange (.refl _)).symm
  · exact fun hlist => ((h.own_apart hhead (array_mem hlist)).mono hrange (.refl _)).symm
  · refine List.forall_mem_cons.mpr ⟨fun hlarge => .inl ?_, fun c hc hlarge => ?_⟩
    · obtain ⟨n, hn⟩ := Option.isSome_iff_exists.mp hlarge
      have hpos := (h.large b hhead n hn).position
      have hstart := hr.1
      simp only [Range.stop, Block.header, Block.payload] at hstart ⊢
      omega
    · obtain ⟨n, hn⟩ := Option.isSome_iff_exists.mp hlarge
      have hblock : b.range.Apart c.range := (List.pairwise_cons.mp h.apart).1 _
        (mem_holdings.mpr (.inl ⟨c, hc, rfl⟩))
      exact (hblock.mono hrange
        (header_within (h.large c (List.mem_cons_of_mem _ hc) n hn) hn)).symm

/-- A write to the arena leaves what is in use. -/
theorem HeapInv.holdings_arena (h : HeapInv start s live) (hs : Statics s s')
    (hinit : s.initialized = true) (hm : OnlyIn s.arena s.memory s'.memory) :
    s'.holdings live = s.holdings live := by
  rw [Allocator.holdings, h.own_congr hs]
  · rfl
  · exact fun hlist => hm.agreeOn (h.arena_apart hinit hlist).symm

/-- It keeps the invariant, if the chunk is as it should be. -/
theorem HeapInv.frame_arena (h : HeapInv start s live) (hs : Statics s s')
    (hinit : s.initialized = true) (hm : OnlyIn s.arena s.memory s'.memory)
    (hchunk : ¬ s'.NoRoom s'.mainArena → s'.holdings live = s.holdings live →
      ChunkOk start s' live) : HeapInv start s' live := by
  apply h.of_statics hs
  · exact fun hlist => hm.agreeOn (h.arena_apart hinit hlist).symm
  · exact fun b hb hlarge => hm.agreeOn (h.header_apart hb hlarge (arena_mem hinit))
  · exact fun _ => hchunk

/-- **The invariant is kept** where what is in use is named otherwise: a block that becomes free,
or that the allocator takes for its array. -/
theorem HeapInv.of_perm (h : HeapInv start s live) (hclasses : ClassesOk s')
    (hinit : s'.initialized = s.initialized) (hmain : s'.mainArena = s.mainArena)
    (hbrk : s'.brk = s.brk) (hcount : s'.freeCount ≤ 64)
    (hlist : s'.freeList = 0 → s'.freeCount = 0)
    (hsmall : ∀ b ∈ live', b.large = none → s.initialized = true ∧ 16 ≤ b.ptr)
    (hfree : ∀ r ∈ s'.freeBlocks, 16 ≤ r.start)
    (hlarge : ∀ b ∈ live', ∀ n, b.large = some n → LargeOk s' b n)
    (harena : s.initialized = true → AgreeOn s.memory s'.memory s.mainArena 32)
    (hperm : (s.holdings live).Perm (s'.holdings live')) : HeapInv start s' live' := by
  constructor
  · exact hclasses
  · exact hbrk ▸ h.low
  · exact hcount
  · exact hlist
  · rw [hinit]
    exact hsmall
  · exact hfree
  · exact hlarge
  · rw [hbrk]
    exact fun r hr => h.within r (hperm.mem_iff.mpr hr)
  · exact pairwise_perm h.apart hperm
  · intro hs hroom
    rw [hinit] at hs
    rw [hmain] at hroom
    obtain ⟨hchunks, hsize, hused⟩ := arena_congr (harena hs)
    have hrest : s'.rest = s.rest := by
      rw [Allocator.rest, hmain, hchunks, hused]
      rfl
    rw [Allocator.NoRoom, hchunks, hsize, hused] at hroom
    obtain ⟨h₁, h₂, h₃, h₄, h₅⟩ := h.chunk hs hroom
    constructor
    · rw [hmain, hsize, h₁]
    · rw [hmain, hused]
      exact h₂
    · rw [hmain, hchunks]
      exact h₃
    · rw [hmain, hchunks, hbrk]
      exact h₄
    · rw [hrest]
      exact fun r hr => h₅ r (hperm.mem_iff.mpr hr)

end

end PrismaticOS.Libc
