import PrismaticOS.Libc.MallocInvariant

/-!
# The parts of `malloc` and `free`

What the parts of the allocator do to the ranges in use.

## What is proved

* `HeapInv.carve`, `HeapInv.withChunk`, `HeapInv.withHeader`, `HeapInv.init` — blocks that are cut
  off the chunk, if they fit, new chunks, large blocks, and the arena.
* `HeapInv.pop`, `HeapInv.push`, `HeapInv.adopt` — free blocks, and the array they are in.
* `KeepsBytes` — what live blocks hold.
-/

namespace PrismaticOS.Libc

open PrismaticOS.Library

section
variable {supply : Supply} {start : ℕ} {s s' : Allocator} {live live' : List Block}
  {b b' : Block} {n i ptr : ℕ}

/-! ### The parts of `malloc` -/

/-- The arena gets a new chunk. -/
theorem HeapInv.withChunk (h : HeapInv start s live) (hs : s.initialized = true) :
    HeapInv start (s.withChunk s.mainArena) live ∧
      ¬ (s.withChunk s.mainArena).NoRoom s.mainArena := by
  constructor
  · apply h.frame_arena withChunk_statics hs withChunk_onlyIn
    intro hroom hholdings
    constructor
    · exact withChunk_chunkSize
    · rw [withChunk_mainArena, withChunk_used]
      exact Nat.dvd_zero 8
    · rw [withChunk_mainArena, withChunk_chunks]
      obtain ⟨hlow, hhigh⟩ := h.within s.arena (mem_holdings.mpr (.inr (arena_mem hs)))
      have hsize : s.mainArena + 32 ≤ s.brk := hhigh
      exact max_le (hlow.trans ((Nat.le_add_right ..).trans hhigh)) (by omega)
    · rw [withChunk_mainArena, withChunk_chunks]
      exact le_rfl
    · intro r hr
      rw [hholdings] at hr
      refine .inl ((h.within r hr).2.trans ?_)
      rw [Allocator.rest, withChunk_mainArena, withChunk_chunks]
      exact Nat.le_add_right ..
  · rw [Allocator.NoRoom, withChunk_chunks, withChunk_chunkSize, withChunk_used]
    have hbrk := h.classes.brk
    simp only [chunkBytes]
    omega

/-- Only the arena is written when a block is cut off. -/
theorem used_onlyIn (s : Allocator) (v : ℕ) :
    OnlyIn s.arena s.memory (s.store (s.mainArena + 24) v).memory :=
  (onlyIn_storeWord _ _ _).mono
    ⟨Nat.le_add_right .., by simp only [Range.stop, Allocator.arena]; omega⟩

/-- **A small block** is cut off the chunk, if it fits. -/
theorem HeapInv.carve (h : HeapInv start s live) (hs : s.initialized = true)
    (hroom : ¬ s.NoRoom s.mainArena) {size : ℕ} (hsize : 8 ≤ size) (hdvd : 8 ∣ size)
    (hn : n ≤ size) (hfit : s.used s.mainArena + n ≤ chunkBytes) :
    HeapInv start (s.store (s.mainArena + 24) (s.used s.mainArena + size))
      (⟨s.chunks s.mainArena + s.used s.mainArena, n, none⟩ :: live) := by
  obtain ⟨hchunkSize, hused, hlow, hhigh, hrest⟩ := h.chunk hs hroom
  have hlt : s.used s.mainArena < chunkBytes := by
    rw [Allocator.NoRoom, not_or, hchunkSize] at hroom
    exact not_le.mp hroom.2
  have hfit8 : s.used s.mainArena + 8 ≤ chunkBytes := by
    have hbytes : 8 ∣ chunkBytes := by decide
    omega
  have hfield := used_onlyIn s (s.used s.mainArena + size)
  have hkept : HeapInv start (s.store (s.mainArena + 24) (s.used s.mainArena + size)) live := by
    apply h.frame_arena (statics_store _ _ _) hs hfield
    · intro hroom' hholdings
      constructor
      · rw [store_mainArena, chunkSize_store_used]
        exact hchunkSize
      · rw [store_mainArena, used_store]
        exact Nat.dvd_add hused hdvd
      · rw [store_mainArena, chunks_store_used]
        exact hlow
      · rw [store_mainArena, chunks_store_used]
        exact hhigh
      · intro r hr
        rw [hholdings] at hr
        apply (hrest r hr).mono (.refl r)
        simp only [Range.Within, Range.stop, Allocator.rest, store_mainArena, chunks_store_used,
          used_store]
        rw [store_mainArena, Allocator.NoRoom, chunks_store_used, chunkSize_store_used,
          used_store] at hroom'
        omega
  have hblock : (⟨s.chunks s.mainArena + s.used s.mainArena, n, none⟩ : Block).range =
      ⟨s.chunks s.mainArena + s.used s.mainArena, max n 8⟩ := rfl
  apply hkept.cons
  · rw [hblock]
    exact (le_max_left ..).trans (hlow.trans (Nat.le_add_right ..))
  · rw [hblock, store_brk]
    simp only [Range.stop]
    omega
  · exact fun _ => ⟨hs, (le_max_right ..).trans (hlow.trans (Nat.le_add_right ..))⟩
  · rintro k hk
    cases hk
  · intro r hr
    rw [h.holdings_arena (statics_store _ _ _) hs hfield] at hr
    apply ((hrest r hr).mono (.refl r) _).symm
    rw [hblock]
    simp only [Range.Within, Range.stop, Allocator.rest]
    omega
  · intro _ _
    rw [hblock]
    left
    simp only [Range.stop, Allocator.rest, store_mainArena, chunks_store_used, used_store]
    omega

theorem withHeader_onlyIn (s : Allocator) (n : ℕ) :
    OnlyIn ⟨s.brk, 16⟩ s.memory (s.withHeader n).memory := by
  have hsize : OnlyIn ⟨s.brk, 16⟩ s.memory (storeWord s.memory s.brk n) :=
    (onlyIn_storeWord _ _ _).mono ⟨le_rfl, by simp only [Range.stop]; omega⟩
  exact hsize.trans ((onlyIn_storeWord _ _ _).mono
    ⟨Nat.le_add_right .., by simp only [Range.stop]; omega⟩)

/-- **A large block** comes from `sbrk`, if its bytes and its header fit. -/
theorem HeapInv.withHeader (h : HeapInv start s live) (hn : n ≠ 0)
    (hfit : n + 16 ≤ pageRound n) :
    HeapInv start (s.withHeader (pageRound n)) (⟨s.brk + 16, n, some (pageRound n)⟩ :: live) := by
  have hstatics : Statics s (s.withHeader (pageRound n)) :=
    ⟨rfl, rfl, rfl, Nat.le_add_right ..⟩
  have hwrite := withHeader_onlyIn s (pageRound n)
  have hlarge : LargeOk (s.withHeader (pageRound n)) ⟨s.brk + 16, n, some (pageRound n)⟩
      (pageRound n) := by
    constructor
    · simp only [Nat.add_sub_cancel, Allocator.withHeader]
      rw [load_store_out _ _ _ (.inl (by omega)), load_store]
    · have hat : s.brk + 16 - 8 = s.brk + 8 := by omega
      simp only [Allocator.HasMagic, hat, Allocator.withHeader]
      exact load_store _ _ _
    · exact hfit
    · omega
    · exact Nat.le_add_left ..
    · rw [pageRound]
      omega
  have hblock : (⟨s.brk + 16, n, some (pageRound n)⟩ : Block).range = ⟨s.brk, pageRound n⟩ := by
    simp [Block.range]
  apply (h.frame_above hstatics hwrite).cons
  · rw [hblock]
    exact h.low
  · rw [hblock]
    exact le_rfl
  · intro hno
    cases hno
  · rintro k hk
    cases hk
    exact hlarge
  · intro r hr
    have hsame : (s.withHeader (pageRound n)).holdings live = s.holdings live := by
      rw [Allocator.holdings, h.own_congr hstatics]
      · rfl
      · exact fun hlist => hwrite.agreeOn (.inl (h.stop_le (array_mem hlist)))
    rw [hsame] at hr
    rw [hblock]
    exact .inr (h.within r hr).2
  · intro hs hroom
    have harena : AgreeOn s.memory (s.withHeader (pageRound n)).memory s.mainArena 32 :=
      hwrite.agreeOn (w := s.arena) (.inl (h.stop_le (arena_mem hs)))
    obtain ⟨hrest, hnoRoom⟩ := rest_congr hstatics harena
    rw [hrest, hblock]
    exact .inr (h.rest_stop_le hs fun hno => hroom (hnoRoom.mpr hno))

/-- Before the initialisation only live blocks are in use. -/
theorem ClassesOk.own_blank (h : ClassesOk s) (hs : s.initialized = false) : s.own = [] := by
  have hblank := h.blank hs 0
  simp [Allocator.own, hs, Allocator.freeList, Allocator.freeBlocks, Allocator.freeCount, hblank]

theorem withArena_onlyIn (s : Allocator) : OnlyIn ⟨s.brk, 32⟩ s.memory s.withArena.memory := by
  have hfield : ∀ (m : Cells) k v, k ≤ 24 →
      OnlyIn ⟨s.brk, 32⟩ m (storeWord m (s.brk + k) v) := fun m k v hk =>
    (onlyIn_storeWord m (s.brk + k) v).mono
      ⟨Nat.le_add_right .., by simp only [Range.stop]; omega⟩
  exact (hfield _ 0 0 (by omega)).trans ((hfield _ 8 0 (by omega)).trans
    ((hfield _ 16 0 (by omega)).trans (hfield _ 24 0 (by omega))))

/-- **The initialisation** makes the arena. -/
theorem HeapInv.init (h : HeapInv start s live) : HeapInv start (initAllocator supply s) live := by
  have hclasses : ClassesOk (initAllocator supply s) := initAllocator_classes h.classes
  rcases init_cases supply s with ⟨-, heq⟩ | ⟨hs, -, heq⟩ | ⟨hs, -, heq⟩
  · rw [heq]
    exact h
  · rw [heq] at hclasses ⊢
    have hholdings : ({ s.refused with mainArena := 2 ^ 64 - 1 } : Allocator).holdings live =
        s.holdings live := by
      rw [Allocator.holdings, Allocator.holdings, h.classes.own_blank hs,
        hclasses.own_blank hs]
    refine ⟨hclasses, h.low, h.count, h.list, h.small, h.reusable, ?_, ?_, ?_, ?_⟩
    · exact fun b hb n hn => (h.large b hb n hn).congr (.refl _ _ _)
    · rw [hholdings]
      exact h.within
    · rw [hholdings]
      exact h.apart
    · intro hinit
      rw [show s.initialized = true from hinit] at hs
      cases hs
  · rw [heq] at hclasses ⊢
    have hwrite := withArena_onlyIn s
    have hholdings : s.withArena.holdings live = live.map Block.range ++ [⟨s.brk, 32⟩] := rfl
    have hblocks : s.holdings live = live.map Block.range := by
      rw [Allocator.holdings, h.classes.own_blank hs, List.append_nil]
    have hwithin : ∀ r ∈ live.map Block.range, start ≤ r.start ∧ r.stop ≤ s.brk :=
      hblocks ▸ h.within
    have hchunks : s.withArena.chunks s.brk = 0 := by
      have hkeep : s.withArena.chunks s.brk =
          ((((({ s.granted 32 with mainArena := s.brk } : Allocator).store s.brk 0).store
            (s.brk + 8) 0).store (s.brk + 16) 0).store (s.brk + 24) 0).chunks s.brk := rfl
      rw [hkeep, chunks_store_used, Allocator.chunks, load_store_out _ _ _ (.inl (by omega)),
        load_store]
    refine ⟨hclasses, h.low.trans (Nat.le_add_right ..), Nat.zero_le _, fun _ => rfl,
      fun b hb hnone => ⟨rfl, (h.small b hb hnone).2⟩, fun r hr => absurd hr List.not_mem_nil,
      ?_, ?_, ?_, ?_⟩
    · intro b hb n hn
      apply (h.large b hb n hn).congr
      exact hwrite.agreeOn (w := b.header) (.inl (h.header_stop_le hb (by rw [hn]; rfl)))
    · rw [hholdings]
      intro r hr
      rcases List.mem_append.mp hr with hr | hr
      · exact ⟨(hwithin r hr).1, (hwithin r hr).2.trans (Nat.le_add_right ..)⟩
      · rw [List.mem_singleton.mp hr]
        exact ⟨h.low, le_rfl⟩
    · rw [hholdings, List.pairwise_append]
      refine ⟨hblocks ▸ h.apart, List.pairwise_singleton .., fun r hr a ha => ?_⟩
      rw [List.mem_singleton.mp ha]
      exact .inl (hwithin r hr).2
    · exact fun _ hroom => absurd (.inl hchunks) hroom

/-! ### Free blocks -/

/-- The allocator with `count` blocks in its array. -/
def Allocator.withCount (s : Allocator) (count : ℕ) : Allocator :=
  s.setClass 0 { s.sizeClasses 0 with freeCount := count }

/-- One free block more. -/
theorem own_append {r : Range} (hinit : s'.initialized = s.initialized)
    (hmain : s'.mainArena = s.mainArena) (hlist : s'.freeList = s.freeList)
    (hfree : s'.freeBlocks = s.freeBlocks ++ [r]) : s'.own = s.own ++ [r] := by
  have harena : s'.arena = s.arena := congrArg (fun a => (⟨a, 32⟩ : Range)) hmain
  have harray : s'.array = s.array := congrArg (fun a => (⟨a, 512⟩ : Range)) hlist
  rw [Allocator.own, Allocator.own, hinit, harena, harray, hlist, hfree]
  simp only [List.append_assoc]

/-- **A free block** is taken from the array. -/
theorem HeapInv.pop (h : HeapInv start s live) (hs : s.initialized = true)
    (hlist : s.freeList ≠ 0) (hcount : 0 < s.freeCount) (hn : n ≤ 8) :
    HeapInv start (s.withCount (s.freeCount - 1))
      (⟨s.load (s.freeList + 8 * (s.freeCount - 1)), n, none⟩ :: live) := by
  have hfree : s.freeBlocks = (s.withCount (s.freeCount - 1)).freeBlocks ++
      [⟨s.load (s.freeList + 8 * (s.freeCount - 1)), 8⟩] := by
    have hsucc : s.freeCount = s.freeCount - 1 + 1 := by omega
    rw [Allocator.freeBlocks, hsucc, List.range_succ, List.map_append]
    rfl
  have hown : s.own = (s.withCount (s.freeCount - 1)).own ++
      [⟨s.load (s.freeList + 8 * (s.freeCount - 1)), 8⟩] := own_append rfl rfl rfl hfree
  have hcount64 := h.count
  apply h.of_perm
  · exact h.classes.setClass hs _ _
  · rfl
  · rfl
  · rfl
  · show s.freeCount - 1 ≤ 64
    omega
  · exact fun hnull => absurd hnull hlist
  · refine List.forall_mem_cons.mpr ⟨fun _ => ⟨hs, ?_⟩, fun b hb hnone => h.small b hb hnone⟩
    exact h.reusable _ (hfree ▸ List.mem_append_right _ List.mem_cons_self)
  · exact fun r hr => h.reusable r (hfree ▸ List.mem_append_left _ hr)
  · refine List.forall_mem_cons.mpr ⟨?_, ?_⟩
    · rintro k hk
      cases hk
    · exact fun b hb k hk => (h.large b hb k hk).congr (.refl _ _ _)
  · exact fun _ => .refl _ _ _
  · have hblock : (⟨s.load (s.freeList + 8 * (s.freeCount - 1)), n, none⟩ : Block).range =
        ⟨s.load (s.freeList + 8 * (s.freeCount - 1)), 8⟩ := by
      rw [Block.range]
      exact congrArg _ (max_eq_right hn)
    rw [Allocator.holdings, hown, ← List.append_assoc, Allocator.holdings, List.map_cons, hblock]
    exact List.perm_append_singleton _ _

/-- Only the array is written when a block becomes free. -/
theorem pushFree_onlyIn (hcount : s.freeCount < 64) :
    OnlyIn s.array s.memory (pushFree s ptr 0).memory :=
  (onlyIn_storeWord _ (s.freeList + 8 * s.freeCount) _).mono
    ⟨Nat.le_add_right .., by simp only [Range.stop, Allocator.array]; omega⟩

/-- **A block becomes free.** -/
theorem HeapInv.push (h : HeapInv start s (⟨ptr, n, none⟩ :: live)) (hs : s.initialized = true)
    (hlist : s.freeList ≠ 0) (hcount : s.freeCount < 64) :
    HeapInv start (pushFree s ptr 0) live := by
  have hlist' : (pushFree s ptr 0).freeList = s.freeList := by
    rw [Allocator.freeList, pushFree, setClass_self]
    rfl
  have hcount' : (pushFree s ptr 0).freeCount = s.freeCount + 1 := by
    rw [Allocator.freeCount, pushFree, setClass_self]
    rfl
  have hload : ∀ a, (pushFree s ptr 0).load a = (s.store (s.freeList + 8 * s.freeCount) ptr).load a :=
    fun _ => rfl
  have hwrite : OnlyIn s.array s.memory (pushFree s ptr 0).memory := pushFree_onlyIn hcount
  have hrest : (List.range s.freeCount).map
      (fun i => (⟨(pushFree s ptr 0).load (s.freeList + 8 * i), 8⟩ : Range)) = s.freeBlocks := by
    apply List.map_congr_left
    intro i hi
    have hlt := List.mem_range.mp hi
    rw [hload, load_store_out _ _ _ (.inl (by omega))]
  have hfree : (pushFree s ptr 0).freeBlocks = s.freeBlocks ++ [⟨ptr, 8⟩] := by
    rw [Allocator.freeBlocks, hlist', hcount', List.range_succ, List.map_append, hrest,
      List.map_singleton, hload, load_store]
  have hown : (pushFree s ptr 0).own = s.own ++ [⟨ptr, 8⟩] := own_append rfl rfl hlist' hfree
  have hptr : 16 ≤ ptr := (h.small _ List.mem_cons_self rfl).2
  have hsmall : HeapInv start s (⟨ptr, 8, none⟩ :: live) := by
    apply h.shrink
    · exact ⟨le_rfl, Nat.add_le_add_left (max_le (le_max_right ..) (le_max_right ..)) _⟩
    · exact fun _ => ⟨hs, hptr⟩
    · rintro k hk
      cases hk
  apply hsmall.of_perm
  · exact pushFree_classes h.classes hs
  · rfl
  · rfl
  · rfl
  · rw [hcount']
    exact hcount
  · exact fun hnull => absurd (hlist' ▸ hnull) hlist
  · exact h.tail.small
  · rw [hfree]
    exact List.forall_mem_append.mpr ⟨h.reusable, List.forall_mem_singleton.mpr hptr⟩
  · intro b hb k hk
    apply (h.large b (List.mem_cons_of_mem _ hb) k hk).congr
    exact hwrite.agreeOn (h.header_apart (List.mem_cons_of_mem _ hb) (by rw [hk]; rfl)
      (array_mem hlist))
  · exact fun hinit => hwrite.agreeOn (h.arena_apart hinit hlist)
  · have hblock : (⟨ptr, 8, none⟩ : Block).range = ⟨ptr, 8⟩ := rfl
    rw [Allocator.holdings, Allocator.holdings, hown, ← List.append_assoc, List.map_cons, hblock]
    exact (List.perm_append_singleton _ _).symm

/-- The allocator with its array at `list`. -/
def Allocator.withArray (s : Allocator) (list : ℕ) : Allocator :=
  s.setClass 0 { s.sizeClasses 0 with freeList := list }

@[simp] theorem withArray_freeList : (s.withArray ptr).freeList = ptr := by
  simp [Allocator.withArray, Allocator.freeList]

@[simp] theorem withArray_freeCount : (s.withArray ptr).freeCount = s.freeCount := by
  simp [Allocator.withArray, Allocator.freeCount]

/-- A block becomes the array. -/
theorem HeapInv.adopt (h : HeapInv start s (⟨ptr, 512, none⟩ :: live)) (hs : s.initialized = true)
    (hptr : ptr ≠ 0) (hlist : s.freeList = 0) :
    HeapInv start (s.withArray ptr) live := by
  have hzero : s.freeCount = 0 := h.list hlist
  have hcount' : (s.withArray ptr).freeCount = 0 := by rw [withArray_freeCount, hzero]
  apply h.of_perm
  · exact h.classes.setClass hs ptr (s.sizeClasses 0).freeCount
  · rfl
  · rfl
  · rfl
  · rw [hcount']
    exact Nat.zero_le _
  · exact fun _ => hcount'
  · exact h.tail.small
  · rw [Allocator.freeBlocks, hcount']
    exact fun r hr => absurd hr List.not_mem_nil
  · exact fun b hb k hk => (h.large b (List.mem_cons_of_mem _ hb) k hk).congr (.refl _ _ _)
  · exact fun _ => .refl _ _ _
  · have hblock : (⟨ptr, 512, none⟩ : Block).range = ⟨ptr, 512⟩ := rfl
    have hown : s.own = [s.arena] := by
      rw [Allocator.own, Allocator.freeBlocks, hlist, hzero, hs]
      rfl
    have hown' : (s.withArray ptr).own = [s.arena, ⟨ptr, 512⟩] := by
      rw [Allocator.own, Allocator.freeBlocks, hcount', Allocator.array, withArray_freeList,
        if_neg hptr, Allocator.withArray, setClass_initialized, hs]
      rfl
    rw [Allocator.holdings, Allocator.holdings, hown, hown', List.map_cons, hblock]
    have hswap : ([⟨ptr, 512⟩, s.arena] : List Range).Perm [s.arena, ⟨ptr, 512⟩] := .swap ..
    exact (List.perm_middle.symm).trans (hswap.append_left (live.map Block.range))

/-! ### What live blocks hold -/

/-- The bytes of the live blocks are kept. -/
def KeepsBytes (s s' : Allocator) (live : List Block) : Prop :=
  ∀ b ∈ live, AgreeOn s.memory s'.memory b.ptr b.size

theorem KeepsBytes.refl (s : Allocator) (live : List Block) : KeepsBytes s s live :=
  fun _ _ => .refl _ _ _

theorem KeepsBytes.trans {s'' : Allocator} (h : KeepsBytes s s' live)
    (h' : KeepsBytes s' s'' live) : KeepsBytes s s'' live := fun b hb => (h b hb).trans (h' b hb)

/-- A write outside the live blocks. -/
theorem HeapInv.keeps (h : HeapInv start s live) {r : Range} (hm : OnlyIn r s.memory s'.memory)
    (hr : ∀ b ∈ live, b.range.Apart r) : KeepsBytes s s' live :=
  fun b hb => hm.agreeOn ((hr b hb).mono (payload_within (h.large b hb)) (.refl r))

theorem HeapInv.keeps_own (h : HeapInv start s live) {r : Range} (hr : r ∈ s.own)
    (hm : OnlyIn r s.memory s'.memory) : KeepsBytes s s' live :=
  h.keeps hm fun _ hb => h.own_apart hb hr

theorem HeapInv.keeps_above (h : HeapInv start s live)
    (hm : OnlyIn ⟨s.brk, n⟩ s.memory s'.memory) : KeepsBytes s s' live :=
  h.keeps hm fun b hb => .inl (h.within b.range (mem_holdings.mpr (.inl ⟨b, hb, rfl⟩))).2

theorem HeapInv.init_keeps (h : HeapInv start s live) :
    KeepsBytes s (initAllocator supply s) live := by
  rcases init_cases supply s with ⟨-, heq⟩ | ⟨-, -, heq⟩ | ⟨-, -, heq⟩
  · rw [heq]
    exact .refl _ _
  · rw [heq]
    exact fun _ _ => .refl _ _ _
  · rw [heq]
    exact h.keeps_above (withArena_onlyIn s)

end

end PrismaticOS.Libc
