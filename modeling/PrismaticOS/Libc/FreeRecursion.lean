import PrismaticOS.Libc.Carving

/-!
# Whether `free` returns

`free` of a small block goes through `free_to_size_class`, which makes the array of free blocks
longer with `realloc` when the number of free blocks is a multiple of 64, and `realloc` frees the
old array. The number has not changed then, and so the old array is to be filed with the same
array being too short.

## What is proved

* `free_ends` — where this does not happen, `free` needs two calls of itself, whatever `sbrk`
  gives.
* `free_depth` — in every run, where every call is made in such a state, every call returns, with
  a depth of two.
* `free_runs_on` — after `p = malloc(8); free(p); p = malloc(8)`, `free(p)` does not return at
  any depth, if `sbrk` does not fail.
-/

namespace PrismaticOS.Libc

open PrismaticOS.Library

/-- The bytes that `free_to_size_class` asks for when it makes an array longer. -/
def SizeClass.longer (sc : SizeClass) : ℕ := (sc.freeCount + 64) * 8

/-- `free(ptr)` does not come back to the array that it is making longer: the block is a large
one, or the array stays as it is, or there is none, or `realloc` does not free it: it leaves it
where it is, or it takes it for a large block. -/
def Allocator.FreeEnds (s : Allocator) (ptr : ℕ) : Prop :=
  s.HasMagic ptr ∨ s.initialized = true ∧
    let sc := s.sizeClasses 0
    (1024 ≤ sc.freeCount ∨ sc.freeCount % 64 ≠ 0 ∨ sc.freeList = 0 ∨
      sc.longer ≤ oldSize s sc.freeList ∨
      ∀ supply, (moveBlock supply s sc.freeList sc.longer).1.HasMagic sc.freeList)

/-- The condition on a call. `realloc` frees the block when it has been copied. -/
def FreesEnd (p : Process) : AllocCall → Prop
  | .malloc _ => True
  | .free ptr => p.heap.FreeEnds ptr
  | .realloc ptr size =>
    if size = 0 then p.heap.FreeEnds ptr
    else size ≤ oldSize p.heap ptr ∨
      ∀ supply, (moveBlock supply p.heap ptr size).1.FreeEnds ptr
  | .write _ _ _ => True

/-- A call that a program may make: with a live block, and within its bytes. -/
def Process.Allows (p : Process) : AllocCall → Prop
  | .malloc _ => True
  | .free ptr => ∃ b, p.block ptr = some b
  | .realloc ptr _ => ∃ b, p.block ptr = some b
  | .write ptr offset _ => ∃ b, p.block ptr = some b ∧ offset < b.size

section
variable {supply : Supply} {s s' : Allocator} {ptr n depth : ℕ} {p : Process} {call : AllocCall}

/-- **Where `free` ends**, two calls of it are enough. -/
theorem free_ends (h : ClassesOk s) (hends : s.FreeEnds ptr) (supply : Supply) :
    ∃ s', free supply 2 s ptr = some s' := by
  by_cases hlarge : ptr = 0 ∨ s.HasMagic ptr
  · exact ⟨s, free_large hlarge⟩
  · obtain ⟨hptr, hmagic⟩ := not_or.mp hlarge
    obtain hs | ⟨hs, hends⟩ := hends
    · exact absurd hs hmagic
    · rw [free_small h hs hptr hmagic]
      simp only [freeToSizeClass]
      split_ifs with hlimit hgrow
      · suffices hrealloc : ∃ r, reallocWith supply (free supply 1) s (s.sizeClasses 0).freeList
            (s.sizeClasses 0).longer = some r by
          obtain ⟨r, hr⟩ := hrealloc
          exact ⟨_, congrArg (Option.map _) hr⟩
        rw [reallocWith]
        split_ifs with hnull hzero hkeep
        · exact ⟨_, rfl⟩
        · rw [SizeClass.longer] at hzero
          omega
        · exact ⟨_, rfl⟩
        · have hmoved : (moveBlock supply s (s.sizeClasses 0).freeList
              (s.sizeClasses 0).longer).1.HasMagic (s.sizeClasses 0).freeList := by
            rcases hends with hends | hends | hends | hends | hends
            · exact absurd hlimit (not_lt.mpr hends)
            · exact absurd hgrow hends
            · exact absurd hends hnull
            · exact absurd hends hkeep
            · exact hends supply
          split
          rename_i heq
          rw [heq] at hmoved
          split_ifs
          · exact ⟨_, rfl⟩
          · rw [free_large (.inr hmoved)]
            exact ⟨_, rfl⟩
      · exact ⟨_, rfl⟩
      · exact ⟨_, rfl⟩

/-- A call of the program returns then. -/
theorem step_ends (h : ClassesOk p.heap) (hends : FreesEnd p call) (supply : Supply)
    (hallows : p.Allows call) : ∃ p', heapStep supply 2 p call = some p' := by
  cases call with
  | malloc size => exact ⟨_, rfl⟩
  | free ptr =>
    obtain ⟨b, hb⟩ := hallows
    obtain ⟨s, hs⟩ := free_ends h hends supply
    exact ⟨⟨s, p.live.erase b⟩, by simp [heapStep, hb, hs]⟩
  | realloc ptr size =>
    obtain ⟨b, hb⟩ := hallows
    suffices hrealloc : ∃ r, realloc supply 2 p.heap ptr size = some r by
      obtain ⟨r, hr⟩ := hrealloc
      simp [heapStep, hb, hr]
    rw [realloc, reallocWith]
    by_cases hzero : size = 0
    · rw [FreesEnd, if_pos hzero] at hends
      obtain ⟨s, hs⟩ := free_ends h hends supply
      rw [if_pos hzero, hs]
      split_ifs
      · exact ⟨_, rfl⟩
      · exact ⟨_, rfl⟩
    · rw [FreesEnd, if_neg hzero] at hends
      rw [if_neg hzero]
      split_ifs with hnull hkeep
      · exact ⟨_, rfl⟩
      · exact ⟨_, rfl⟩
      · have hmoved := hends.resolve_left hkeep supply
        have hclasses : ClassesOk (moveBlock supply p.heap ptr size).1 :=
          (moveBlock_kept h).classes
        split
        rename_i heq
        rw [heq] at hmoved hclasses
        split_ifs
        · exact ⟨_, rfl⟩
        · obtain ⟨s, hs⟩ := free_ends hclasses hmoved supply
          exact ⟨_, congrArg (Option.map _) hs⟩
  | write ptr offset byte =>
    obtain ⟨b, hb, hlt⟩ := hallows
    simp [heapStep, hb, hlt]

/-- **The depth of `free`.** In every run, from the uninitialised allocator on, whose calls meet
the condition, every call returns with two calls of `free`, whatever `sbrk` gives from then
on. -/
theorem free_depth {memory : Cells} {brk : ℕ} (hbrk : 0 < brk) {calls : List AllocCall}
    (h : Made (heapStep supply depth) FreesEnd (started memory brk) calls) :
    Made (heapStep supply depth)
      (fun p call => p.Allows call → ∀ supply, ∃ p', heapStep supply 2 p call = some p')
      (started memory brk) calls := by
  have hstart : ClassesOk (started memory brk).heap := uninitialized_classes hbrk
  have hstep : ∀ p call p', ClassesOk p.heap → heapStep supply depth p call = some p' →
      ClassesOk p'.heap := fun _ _ _ => step_classes
  have hcall : ∀ p call, ClassesOk p.heap → FreesEnd p call → p.Allows call →
      ∀ supply, ∃ p', heapStep supply 2 p call = some p' :=
    fun p call hp hends hallows supply => step_ends hp hends supply hallows
  exact Made.imp hstep hcall hstart h

/-- A first `free` ends: there is no array yet. -/
theorem free_depth_once : Made (heapStep (fun _ _ => true) 2)
    (fun p call => p.Allows call → ∀ supply, ∃ p', heapStep supply 2 p call = some p')
    (started (fun _ => 0) 4096) [.malloc 8, .free 4128, .malloc 8] := by
  apply free_depth (by decide)
  refine ⟨trivial, fun p hp => ⟨?_, fun p' _ => ⟨trivial, fun p'' _ => trivial⟩⟩⟩
  have hstate : (heapStep (fun _ _ => true) 2 (started (fun _ => 0) 4096) (.malloc 8)).map
      (fun p => (p.heap.initialized, (p.heap.sizeClasses 0).freeList)) = some (true, 0) := by
    decide +kernel
  rw [hp, Option.map_some, Option.some.injEq, Prod.mk.injEq] at hstate
  exact .inr ⟨hstate.1, .inr (.inr (.inl hstate.2))⟩

/-! ### An array that is made longer without end -/

/-- An `sbrk` that does not fail. -/
def unlimited : Supply := fun _ _ => true

/-- The array of free blocks is to be made longer, and its old blocks are before the rest of the
chunk. -/
structure Growing (s : Allocator) : Prop where
  /-- The static variables. -/
  classes : ClassesOk s
  /-- There is an arena. -/
  initialized : s.initialized = true
  /-- No block is free. -/
  count : (s.sizeClasses 0).freeCount = 0
  /-- The array and the word before it are behind the arena. -/
  behind : s.mainArena + 40 ≤ (s.sizeClasses 0).freeList
  /-- It is not taken for a large block. -/
  magic : ¬ s.HasMagic (s.sizeClasses 0).freeList
  /-- The rest of the chunk is behind it. -/
  rest : (s.sizeClasses 0).freeList + 8 ≤ s.chunks s.mainArena + s.used s.mainArena
  /-- The next chunk is behind it. -/
  next : (s.sizeClasses 0).freeList + 8 ≤ s.brk

theorem Growing.of_statics (h : Growing s) (hs : Statics s s')
    (hmemory : AgreeOn s.memory s'.memory ((s.sizeClasses 0).freeList - 8) 8)
    (hrest : (s.sizeClasses 0).freeList + 8 ≤ s'.chunks s.mainArena + s'.used s.mainArena) :
    Growing s' where
  classes := h.classes.of_statics hs
  initialized := hs.initialized.trans h.initialized
  count := by rw [hs.sizeClasses, h.count]
  behind := by
    rw [hs.sizeClasses, hs.mainArena]
    exact h.behind
  magic := by
    rw [hs.sizeClasses, Allocator.HasMagic, Allocator.load, loadWord_congr hmemory]
    exact h.magic
  rest := by
    rw [hs.sizeClasses, hs.mainArena]
    exact hrest
  next := by
    rw [hs.sizeClasses]
    exact h.next.trans hs.brk

/-- A new array of 64 pointers is cut off behind the old one. -/
theorem Growing.malloc (h : Growing s) : ∃ s' q, malloc unlimited s 512 = (s', q) ∧
    Growing s' ∧ Statics s s' ∧ (s.sizeClasses 0).freeList + 8 ≤ q := by
  have hbehind := h.behind
  have hstatics : Statics s (PrismaticOS.Libc.malloc unlimited s 512).1 :=
    malloc_statics h.classes h.initialized (by decide)
  rcases malloc_cases unlimited (n := 512) h.classes (by decide) with
    ⟨-, -, i, hi, heq⟩ | ⟨hno, -⟩
  · rw [initAllocator_eq h.initialized] at hi heq
    have hne := findSizeClass_ne_zero h.classes h.initialized (by decide) hi
    have hA := h.classes.arena h.initialized i
    rw [heq] at hstatics ⊢
    rcases carve_cases unlimited hA (h.classes.empty h.initialized i hne).2 with
      ⟨-, hsupply, -⟩ | ⟨-, hcarve⟩ | ⟨-, -, hcarve⟩
    · cases hsupply
    · rw [hcarve] at hstatics ⊢
      refine ⟨_, _, rfl, h.of_statics hstatics ?_ ?_, hstatics, h.rest⟩
      · exact storeWord_agreeOn (.inr (by omega))
      · rw [chunks_store_used, used_store]
        exact h.rest.trans (by omega)
    · rw [hcarve] at hstatics ⊢
      refine ⟨_, _, rfl, h.of_statics hstatics ?_ ?_, hstatics, h.next⟩
      · have harray : (⟨(s.sizeClasses 0).freeList - 8, 8⟩ : Range).Apart ⟨s.mainArena, 32⟩ :=
          .inr (show s.mainArena + 32 ≤ (s.sizeClasses 0).freeList - 8 by omega)
        have hchunk : AgreeOn s.memory (s.withChunk s.mainArena).memory
            ((s.sizeClasses 0).freeList - 8) 8 := withChunk_onlyIn.agreeOn harray
        exact hchunk.trans (storeWord_agreeOn (.inr (by omega)))
      · rw [chunks_store_used, used_store, withChunk_chunks]
        exact h.next.trans (Nat.le_add_right ..)
  · rw [initAllocator_eq h.initialized, h.initialized] at hno
    exact absurd ⟨rfl, by decide⟩ hno

/-- It is copied there. -/
theorem Growing.moveBlock (h : Growing s) : ∃ s' q,
    moveBlock unlimited s (s.sizeClasses 0).freeList 512 = (s', q) ∧ q ≠ 0 ∧
      Growing s' ∧ Statics s s' := by
  obtain ⟨t, q, hmalloc, ht, hstatics, hq⟩ := h.malloc
  have hbehind := h.behind
  have hold := oldSize_small h.classes h.initialized h.magic
  have hne : q ≠ 0 := by omega
  rw [PrismaticOS.Libc.moveBlock, hmalloc, hold]
  simp only [if_neg hne]
  refine ⟨_, q, rfl, hne, ht.of_statics (statics_memory _ _) ?_ ?_,
    hstatics.trans (statics_memory _ _)⟩
  · rw [hstatics.sizeClasses]
    exact copyCells_agreeOn (.inl (by omega))
  · have harena : ∀ a, a + 8 ≤ t.mainArena + 32 → loadWord (copyCells t.memory q
        (s.sizeClasses 0).freeList 8) a = loadWord t.memory a := by
      intro a ha
      rw [hstatics.mainArena] at ha
      exact loadWord_congr (copyCells_agreeOn (.inl (by omega)))
    have hrest := ht.rest
    rw [Allocator.chunks, Allocator.used] at hrest ⊢
    rw [Allocator.load, Allocator.load, min_eq_left (by decide), harena _ (by omega),
      harena _ (by omega)]
    exact hrest

/-- **No depth** is enough for a small block then. -/
theorem Growing.free (h : Growing s) (hptr : ptr ≠ 0) (hmagic : ¬ s.HasMagic ptr) :
    free unlimited depth s ptr = none := by
  induction depth generalizing s ptr with
  | zero => rfl
  | succ depth ih =>
    obtain ⟨t, q, hmove, hq, ht, hstatics⟩ := h.moveBlock
    have hbehind := h.behind
    have hnull : (s.sizeClasses 0).freeList ≠ 0 := by omega
    have hold := oldSize_small h.classes h.initialized h.magic
    have hnested : PrismaticOS.Libc.free unlimited depth t (s.sizeClasses 0).freeList = none := by
      have hmagic := ht.magic
      rw [hstatics.sizeClasses] at hmagic
      exact ih ht hnull hmagic
    rw [free_small h.classes h.initialized hptr hmagic]
    simp only [freeToSizeClass, h.count, reallocWith, if_neg hnull]
    simp [hold, hmove, hq, hnested]

/-- **`free` does not return.** The second block of 8 bytes is the first one, taken from the
array, and no block is free. -/
theorem free_runs_on : ∃ p, run (heapStep unlimited 1) (started (fun _ => 0) 4096)
      [.malloc 8, .free 4128, .malloc 8] = some p ∧
    p.Allows (.free 4128) ∧ ∀ depth, heapStep unlimited depth p (.free 4128) = none := by
  have hrun : (run (heapStep unlimited 1) (started (fun _ => 0) 4096)
      [.malloc 8, .free 4128, .malloc 8]).map (fun p => (p.block 4128, p.heap.initialized,
        [(p.heap.sizeClasses 0).freeCount, p.heap.mainArena, (p.heap.sizeClasses 0).freeList,
          p.heap.load 4120, p.heap.load 4128, p.heap.chunks 4096 + p.heap.used 4096,
          p.heap.brk])) =
      some (some ⟨4128, 8, none⟩, true, [0, 4096, 4136, 520, 0, 4648, 69664]) := by
    decide +kernel
  obtain ⟨p, hp, heq⟩ := Option.map_eq_some_iff.mp hrun
  simp only [Prod.mk.injEq, List.cons.injEq] at heq
  obtain ⟨hblock, hinit, hcount, hmain, hlist, hbefore, hbetween, hrest, hbrk, -⟩ := heq
  have hclasses : ClassesOk p.heap := by
    have hstart : ClassesOk (started (fun _ => 0) 4096).heap := uninitialized_classes (by decide)
    have hstep : ∀ p call p', ClassesOk p.heap → heapStep unlimited 1 p call = some p' →
        ClassesOk p'.heap := fun _ _ _ => step_classes
    exact (always_of_step hstep hstart).of_run hp
  have hgrowing : Growing p.heap := by
    constructor
    · exact hclasses
    · exact hinit
    · exact hcount
    · rw [hmain, hlist]
    · rw [hlist, Allocator.HasMagic, hbetween]
      decide
    · rw [hlist, hmain, hrest]
      decide
    · rw [hlist, hbrk]
      decide
  refine ⟨p, hp, ⟨_, hblock⟩, ?_⟩
  intro depth
  have hmagic : ¬ p.heap.HasMagic 4128 := by
    rw [Allocator.HasMagic, hbefore]
    decide
  have hfree : PrismaticOS.Libc.free unlimited depth p.heap 4128 = none :=
    hgrowing.free (by decide) hmagic
  simp [heapStep, hfree]

end

end PrismaticOS.Libc
