import PrismaticOS.Libc.FreeRecursion
import PrismaticOS.Libc.MallocBlocks

/-!
# Blocks that are used again

Whether a block that was freed is what the next `malloc` of the size returns.

## What is proved

* `free_files` — where `free` files a small block, and where it does not.
* `free_count_le` — a `free` that returns takes no block out of the array, however often it called
  itself.
* `freed_reusable_iff` — in every run: the block is filed under the class of its size, and given out
  again, exactly if it is one of the first class, is not taken for a large one, and the array of
  free blocks has room or can be made longer.
* `freed_not_reusable` — a block of 16 bytes is filed under the class of 8 bytes.
-/

namespace PrismaticOS.Libc

open PrismaticOS.Library

/-- The block was filed under the class `i`: there are more free blocks, and it is the last one. -/
def FiledUnder (s s' : Allocator) (i ptr : ℕ) : Prop :=
  (s.sizeClasses i).freeCount < (s'.sizeClasses i).freeCount ∧
    s'.load ((s'.sizeClasses i).freeList + 8 * ((s'.sizeClasses i).freeCount - 1)) = ptr

/-- The block that `free` filed is reusable: it is under the class of its size, and the next
`malloc(n)` gives out a block, without a change to the arena. -/
structure Reusable (supply : Supply) (s s' : Allocator) (ptr n : ℕ) : Prop where
  /-- Where it is. -/
  filed : ∃ i, findSizeClass s' n = some i ∧ FiledUnder s s' i ptr
  /-- There is a block. -/
  again : (malloc supply s' n).2 ≠ 0
  /-- `used`. -/
  used : (malloc supply s' n).1.used s'.mainArena = s'.used s'.mainArena
  /-- `chunks`. -/
  chunks : (malloc supply s' n).1.chunks s'.mainArena = s'.chunks s'.mainArena

/-- `free` has a place for a small block in the array: there is one, or the array is taken for one
that is long enough, or there is memory for a longer one. -/
def Allocator.HasPlace (supply : Supply) (s : Allocator) : Prop :=
  let sc := s.sizeClasses 0
  sc.freeCount % 64 ≠ 0 ∨ (sc.freeList ≠ 0 ∧ sc.longer ≤ oldSize s sc.freeList) ∨
    ¬ Refused supply s sc.longer

/-- Where there is no array, no block is free. -/
def Allocator.Stocked (s : Allocator) : Prop := s.freeList = 0 → s.freeCount = 0

section
variable {supply : Supply} {s s' t u : Allocator} {n i ptr q depth : ℕ} {p p' : Process}

/-! ### The array of free blocks -/

theorem Allocator.Stocked.congr (h : s.Stocked) (hs : s'.sizeClasses = s.sizeClasses) :
    s'.Stocked := by
  rw [Allocator.Stocked, Allocator.freeList, Allocator.freeCount, hs]
  exact h

theorem pushFree_freeList : (pushFree s ptr 0).freeList = s.freeList := by
  simp [pushFree, Allocator.freeList]

theorem pushFree_freeCount : (pushFree s ptr 0).freeCount = s.freeCount + 1 := by
  simp [pushFree, Allocator.freeCount]

/-- The block is the last one of the array. -/
theorem pushFree_last : (pushFree s ptr 0).load (s.freeList + 8 * s.freeCount) = ptr := by
  simp [pushFree, Allocator.freeList, Allocator.freeCount]

theorem pushFree_stocked (h : s.freeList ≠ 0) : (pushFree s ptr 0).Stocked := by
  intro hnull
  rw [pushFree_freeList] at hnull
  exact absurd hnull h

theorem initAllocator_stocked (h : s.Stocked) : (initAllocator supply s).Stocked := by
  rcases init_cases supply s with ⟨-, heq⟩ | ⟨-, -, heq⟩ | ⟨-, -, heq⟩
  · rw [heq]
    exact h
  · rw [heq]
    exact h
  · rw [heq]
    exact fun _ => rfl

/-- Free blocks are of the first class, and in its array. -/
theorem Allocator.Stocked.array (h : s.Stocked) (hc : ClassesOk s) (hs : s.initialized = true)
    (hcount : (s.sizeClasses i).freeCount ≠ 0) : i = 0 ∧ s.freeList ≠ 0 := by
  have hi : i = 0 := by
    by_contra hne
    exact hcount (hc.empty hs i hne).2
  subst hi
  exact ⟨rfl, fun hnull => hcount (h hnull)⟩

theorem allocFromSizeClass_stocked (hc : ClassesOk s) (hs : s.initialized = true) (h : s.Stocked) :
    (allocFromSizeClass supply s i).1.Stocked := by
  by_cases hcount : (s.sizeClasses i).freeCount = 0
  · exact h.congr (allocFromSizeClass_statics hcount).sizeClasses
  · obtain ⟨rfl, hlist⟩ := h.array hc hs hcount
    rw [pop_eq ⟨hlist, Nat.pos_of_ne_zero hcount⟩]
    intro hnull
    exact absurd (by simpa [Allocator.freeList] using hnull) hlist

/-- `malloc` keeps it. -/
theorem malloc_stocked (hc : ClassesOk s) (h : s.Stocked) : (malloc supply s n).1.Stocked := by
  by_cases hn : n = 0
  · rw [malloc, if_pos hn]
    exact h
  · have hinit : (initAllocator supply s).Stocked := initAllocator_stocked h
    obtain ⟨hs, -, i, -, heq⟩ | ⟨-, heq⟩ := malloc_cases supply hc hn
    · rw [heq]
      exact allocFromSizeClass_stocked (initAllocator_classes hc) hs hinit
    · rw [heq]
      exact hinit.congr (allocLarge_statics _ _ _).sizeClasses

theorem moveBlock_stocked (hc : ClassesOk s) (h : s.Stocked) :
    (moveBlock supply s ptr n).1.Stocked := by
  have hmalloc : (malloc supply s n).1.Stocked := malloc_stocked hc h
  unfold moveBlock
  split
  rename_i heq
  rw [heq] at hmalloc
  split_ifs
  · exact hmalloc
  · exact hmalloc.congr rfl

/-- `realloc` keeps it, if the `free` that it calls does. -/
theorem reallocWith_stocked {release : Allocator → ℕ → Option Allocator}
    (hfree : ∀ t t' ptr, ClassesOk t → t.Stocked → release t ptr = some t' → t'.Stocked)
    (hc : ClassesOk s) (h : s.Stocked)
    (hrun : reallocWith supply release s ptr n = some (s', q)) : s'.Stocked := by
  unfold reallocWith at hrun
  split_ifs at hrun
  · rw [show s' = (malloc supply s n).1 from (congrArg Prod.fst (Option.some.inj hrun)).symm]
    exact malloc_stocked hc h
  · obtain ⟨t, ht, heq⟩ := Option.map_eq_some_iff.mp hrun
    cases heq
    exact hfree _ _ _ hc h ht
  · cases hrun
    exact h
  · have hkept : Kept s (moveBlock supply s ptr n).1 := moveBlock_kept hc
    have hmove : (moveBlock supply s ptr n).1.Stocked := moveBlock_stocked hc h
    split at hrun
    rename_i heq
    rw [heq] at hkept hmove
    split_ifs at hrun
    · cases hrun
      exact hmove
    · obtain ⟨t, ht, heq⟩ := Option.map_eq_some_iff.mp hrun
      cases heq
      exact hfree _ _ _ hkept.classes hmove ht

/-- **`free`** keeps it, at any depth. -/
theorem free_stocked (hc : ClassesOk s) (h : s.Stocked)
    (hrun : free supply depth s ptr = some s') : s'.Stocked := by
  induction depth generalizing s s' ptr with
  | zero => cases hrun
  | succ depth ih =>
    rcases free_cases hc hrun with rfl | ⟨-, hrun⟩
    · exact h
    simp only [freeToSizeClass] at hrun
    split_ifs at hrun with hlimit hgrow
    · obtain ⟨⟨t, list⟩, ht, heq⟩ := Option.map_eq_some_iff.mp hrun
      simp only at heq
      split_ifs at heq with hnull
      · cases heq
        exact reallocWith_stocked (fun t t' ptr hc h hr => ih hc h hr) hc h ht
      · cases heq
        refine pushFree_stocked ?_
        simpa [Allocator.freeList] using hnull
    · cases hrun
      refine pushFree_stocked fun hnull => hgrow ?_
      show s.freeCount % 64 = 0
      rw [h hnull]
    · cases hrun
      exact h

/-- **Every call** keeps it. -/
theorem step_stocked {call : AllocCall} (hc : ClassesOk p.heap) (h : p.heap.Stocked)
    (hstep : heapStep supply depth p call = some p') : p'.heap.Stocked := by
  cases call with
  | malloc size =>
    have hmalloc : (malloc supply p.heap size).1.Stocked := malloc_stocked hc h
    rw [heapStep] at hstep
    cases hstep
    exact hmalloc
  | free ptr =>
    obtain ⟨b, -, hstep⟩ := Option.bind_eq_some_iff.mp hstep
    obtain ⟨s, hs, heq⟩ := Option.map_eq_some_iff.mp hstep
    cases heq
    exact free_stocked hc h hs
  | realloc ptr size =>
    obtain ⟨b, -, hstep⟩ := Option.bind_eq_some_iff.mp hstep
    obtain ⟨⟨s, q⟩, hs, heq⟩ := Option.map_eq_some_iff.mp hstep
    have hstocked : s.Stocked :=
      reallocWith_stocked (fun t t' ptr hc h hr => free_stocked hc h hr) hc h hs
    simp only at heq
    split_ifs at heq <;>
    · cases heq
      exact hstocked
  | write ptr offset byte =>
    obtain ⟨b, -, hstep⟩ := Option.bind_eq_some_iff.mp hstep
    split_ifs at hstep
    cases hstep
    exact h.congr rfl

/-! ### What `free` files -/

/-- An array that is made longer: it is kept, or there is memory for a new one. -/
theorem reallocWith_array {release : Allocator → ℕ → Option Allocator}
    (hfree : ∀ t t' ptr, ClassesOk t → t.initialized = true → release t ptr = some t' →
      t.freeCount ≤ t'.freeCount)
    (hc : ClassesOk s) (hs : s.initialized = true) (hn : 8 < n)
    (hrun : reallocWith supply release s s.freeList n = some (s', q)) :
    s.freeCount ≤ s'.freeCount ∧ (q = 0 → Statics s s') ∧
      (q ≠ 0 ↔ (s.freeList ≠ 0 ∧ n ≤ oldSize s s.freeList) ∨ ¬ Refused supply s n) := by
  have hstatics : Statics s (malloc supply s n).1 := malloc_statics hc hs hn
  have hrefused : (malloc supply s n).2 ≠ 0 ↔ ¬ Refused supply s n := (hc.malloc_eq_zero_iff hs hn).not
  unfold reallocWith at hrun
  split_ifs at hrun with hlist hzero hkeep
  · -- there is no array yet
    obtain rfl : s' = (malloc supply s n).1 := (congrArg Prod.fst (Option.some.inj hrun)).symm
    obtain rfl : q = (malloc supply s n).2 := (congrArg Prod.snd (Option.some.inj hrun)).symm
    refine ⟨?_, fun _ => hstatics, ?_⟩
    · rw [Allocator.freeCount, Allocator.freeCount, hstatics.sizeClasses]
    · rw [hrefused, or_iff_right fun hkept => hkept.1 hlist]
  · omega
  · cases hrun
    exact ⟨le_rfl, fun hnull => absurd hnull hlist, iff_of_true hlist (.inl ⟨hlist, hkeep⟩)⟩
  · rw [or_iff_right fun hkept => hkeep hkept.2, ← hrefused]
    unfold moveBlock at hrun
    cases hm : malloc supply s n with
    | mk m new =>
      rw [hm] at hrun hstatics
      by_cases hnew : new = 0
      · simp only [hnew, if_true] at hrun
        cases hrun
        refine ⟨?_, fun _ => hstatics, iff_of_false (fun h => h rfl) fun h => h hnew⟩
        rw [Allocator.freeCount, Allocator.freeCount, hstatics.sizeClasses]
      · simp only [if_neg hnew] at hrun
        obtain ⟨t, ht, heq⟩ := Option.map_eq_some_iff.mp hrun
        cases heq
        refine ⟨?_, fun hnull => absurd hnull hnew, iff_of_true hnew hnew⟩
        have hsame : m.freeCount = s.freeCount := by
          rw [Allocator.freeCount, Allocator.freeCount, hstatics.sizeClasses]
        have hcount := fun hc hs => hfree _ _ _ hc hs ht
        refine hsame.ge.trans (hcount ?_ ?_)
        · exact (hc.of_statics hstatics).of_statics (statics_memory m _)
        · exact hstatics.initialized.trans hs

/-- The array of a list that is not empty has a length. -/
theorem longer_pos : 8 < (s.sizeClasses 0).longer := by
  rw [SizeClass.longer]
  omega

/-- **A `free` that returns** takes no block out of the array. -/
theorem free_count_le (hc : ClassesOk s) (hs : s.initialized = true)
    (hrun : free supply depth s ptr = some s') : s.freeCount ≤ s'.freeCount := by
  induction depth generalizing s s' ptr with
  | zero => cases hrun
  | succ depth ih =>
    rcases free_cases hc hrun with rfl | ⟨-, hrun⟩
    · exact le_rfl
    simp only [freeToSizeClass] at hrun
    split_ifs at hrun with hlimit hgrow
    · obtain ⟨⟨t, list⟩, ht, heq⟩ := Option.map_eq_some_iff.mp hrun
      have hcount := (reallocWith_array (fun t t' ptr hc hs hr => ih hc hs hr) hc hs longer_pos ht).1
      simp only at heq
      split_ifs at heq with hnull
      · cases heq
        exact hcount
      · cases heq
        rw [pushFree_freeCount]
        exact hcount.trans (Nat.le_succ t.freeCount)
    · cases hrun
      rw [pushFree_freeCount]
      exact Nat.le_succ _
    · cases hrun
      exact le_rfl

/-- The last block of the array after a `free`, and how many there are at least. -/
def Filed (s s' : Allocator) (ptr : ℕ) : Prop :=
  ∃ t, ClassesOk t ∧ t.initialized = true ∧ t.freeList ≠ 0 ∧ s.freeCount ≤ t.freeCount ∧
    s' = pushFree t ptr 0

/-- **Where `free` files a small block**: in the first class, if there is a place. -/
theorem free_files (hc : ClassesOk s) (hs : s.initialized = true) (hstocked : s.Stocked)
    (hptr : ptr ≠ 0) (hmagic : ¬ s.HasMagic ptr) (hroom : s.freeCount < 1024)
    (hrun : free supply depth s ptr = some s') :
    (s.HasPlace supply ∧ Filed s s' ptr) ∨ (¬ s.HasPlace supply ∧ s'.freeCount = s.freeCount) := by
  cases depth with
  | zero => cases hrun
  | succ depth =>
    rw [free_small hc hs hptr hmagic] at hrun
    simp only [freeToSizeClass] at hrun
    split_ifs at hrun with hlimit hgrow
    · obtain ⟨⟨t, list⟩, ht, heq⟩ := Option.map_eq_some_iff.mp hrun
      have hkept := reallocWith_kept (fun t t' ptr ht hr => free_kept ht hr) hc ht
      obtain ⟨hcount, hnull, hplace⟩ :=
        reallocWith_array (fun t t' ptr hc hs hr => free_count_le hc hs hr) hc hs longer_pos ht
      have hiff : s.HasPlace supply ↔ list ≠ 0 := by
        rw [hplace, Allocator.HasPlace, or_iff_right fun hno => hno hgrow]
        rfl
      rw [hiff]
      simp only at heq
      split_ifs at heq with hlist
      · cases heq
        refine .inr ⟨fun hno => hno hlist, ?_⟩
        rw [Allocator.freeCount, Allocator.freeCount, (hnull hlist).sizeClasses]
      · cases heq
        have hclasses := hkept.classes.setClass (hkept.initialized hs) list (t.sizeClasses 0).freeCount
        refine .inl ⟨hlist, _, hclasses, hkept.initialized hs, ?_, hcount, rfl⟩
        simpa [Allocator.freeList] using hlist
    · cases hrun
      refine .inl ⟨.inl hgrow, s, hc, hs, fun hnull => hgrow ?_, le_rfl, rfl⟩
      show s.freeCount % 64 = 0
      rw [hstocked hnull]
    · exact absurd hroom hlimit

/-! ### `malloc` again -/

/-- `malloc` files no block. -/
theorem malloc_count_le (hc : ClassesOk s) (hstocked : s.Stocked) :
    (malloc supply s n).1.freeCount ≤ s.freeCount := by
  by_cases hn : n = 0
  · rw [malloc, if_pos hn]
  have hinit : (initAllocator supply s).freeCount ≤ s.freeCount := by
    rcases init_cases supply s with ⟨-, heq⟩ | ⟨-, -, heq⟩ | ⟨-, -, heq⟩
    · rw [heq]
    · rw [heq]
      exact le_rfl
    · rw [heq]
      exact Nat.zero_le _
  refine le_trans ?_ hinit
  rcases malloc_cases supply hc hn with ⟨hs, -, i, -, heq⟩ | ⟨-, heq⟩
  · rw [heq]
    by_cases hcount : ((initAllocator supply s).sizeClasses i).freeCount = 0
    · rw [Allocator.freeCount, (allocFromSizeClass_statics hcount).sizeClasses]
      exact le_rfl
    · obtain ⟨rfl, hlist⟩ := (initAllocator_stocked hstocked).array (initAllocator_classes hc) hs hcount
      rw [pop_eq ⟨hlist, Nat.pos_of_ne_zero hcount⟩]
      simp [Allocator.freeCount]
  · rw [heq, Allocator.freeCount, (allocLarge_statics _ _ _).sizeClasses]
    exact le_rfl

/-- **The block that was filed** is given out again. -/
theorem Filed.reusable (h : Filed s s' ptr) (hptr : ptr ≠ 0) (hn : n ≠ 0) (hsmall : n ≤ 8) :
    Reusable supply s s' ptr n := by
  obtain ⟨t, hc, hs, hlist, hcount, rfl⟩ := h
  have hclasses : ClassesOk (pushFree t ptr 0) := pushFree_classes hc hs
  have hinit : (pushFree t ptr 0).initialized = true := hs
  have hclass : findSizeClass (pushFree t ptr 0) n = some 0 := findSizeClass_le hclasses hinit hsmall
  have hlast : (pushFree t ptr 0).load ((pushFree t ptr 0).freeList +
      8 * ((pushFree t ptr 0).freeCount - 1)) = ptr := by
    rw [pushFree_freeList, pushFree_freeCount, Nat.add_sub_cancel, pushFree_last]
  have hmalloc : malloc supply (pushFree t ptr 0) n =
      ((pushFree t ptr 0).setClass 0 { (pushFree t ptr 0).sizeClasses 0 with
        freeCount := ((pushFree t ptr 0).sizeClasses 0).freeCount - 1 }, ptr) := by
    have hfull : (pushFree t ptr 0).freeList ≠ 0 ∧ 0 < (pushFree t ptr 0).freeCount := by
      rw [pushFree_freeList, pushFree_freeCount]
      exact ⟨hlist, Nat.succ_pos _⟩
    rw [malloc, if_neg hn, initAllocator_eq hinit, if_pos (hsmall.trans (by decide)), hclass]
    show allocFromSizeClass supply (pushFree t ptr 0) 0 = _
    rw [pop_eq hfull]
    exact congrArg (Prod.mk _) hlast
  constructor
  · exact ⟨0, hclass, (Nat.lt_succ_of_le hcount).trans_eq pushFree_freeCount.symm, hlast⟩
  · rw [hmalloc]
    exact hptr
  · rw [hmalloc]
    rfl
  · rw [hmalloc]
    rfl

/-- Only an initialised allocator returns from a `free` of a small block. -/
theorem initialized_of_free (hc : ClassesOk s) (hptr : ptr ≠ 0) (hmagic : ¬ s.HasMagic ptr)
    (hfree : free supply depth s ptr = some s') : s.initialized = true := by
  by_contra hno
  rw [free_crash hc (Bool.not_eq_true _ ▸ hno) hptr hmagic] at hfree
  cases hfree

/-- Room for free blocks is still there when a block is taken. -/
theorem room_of_malloc (hc : ClassesOk t) (hstocked : t.Stocked) (hsmall : n ≤ 8)
    (hroom : ∀ i, findSizeClass t n = some i → (t.sizeClasses i).freeCount < 1024)
    (hmalloc : malloc supply t n = (s, ptr)) : s.freeCount < 1024 := by
  have hle : (malloc supply t n).1.freeCount ≤ t.freeCount := malloc_count_le hc hstocked
  rw [hmalloc] at hle
  refine hle.trans_lt ?_
  cases hs : t.initialized with
  | true => exact hroom 0 (findSizeClass_le hc hs hsmall)
  | false =>
    have hzero : t.freeCount = 0 := by rw [Allocator.freeCount, hc.blank hs]
    omega

/-- **A block that is freed can be used again.** In every run, for a block that `malloc(n)` gave, where
the class of `n` has room for free blocks, and a `free` of it that returns: it is filed under the
class of `n`, and the next `malloc(n)` leaves the arena alone, exactly if the block is one of the
first class, is not taken for a large one, and the array has a place for it. -/
theorem freed_reusable_iff {memory : Cells} {brk : ℕ} (hbrk : 0 < brk) {calls : List AllocCall}
    (hrun : run (heapStep supply depth) (started memory brk) calls = some p)
    (hroom : ∀ i, findSizeClass p.heap n = some i → (p.heap.sizeClasses i).freeCount < 1024)
    (hmalloc : malloc supply p.heap n = (s, ptr)) (hptr : ptr ≠ 0) {depth' : ℕ}
    (hfree : free supply depth' s ptr = some s') :
    Reusable supply s s' ptr n ↔ n ≤ 8 ∧ ¬ s.HasMagic ptr ∧ s.HasPlace supply := by
  have hstart : ClassesOk (started memory brk).heap ∧ (started memory brk).heap.Stocked :=
    ⟨uninitialized_classes hbrk, fun _ => rfl⟩
  have hstep : ∀ (p : Process) call p', ClassesOk p.heap ∧ p.heap.Stocked →
      heapStep supply depth p call = some p' → ClassesOk p'.heap ∧ p'.heap.Stocked :=
    fun p call p' hp hcall => ⟨step_classes hp.1 hcall, step_stocked hp.1 hp.2 hcall⟩
  obtain ⟨hclasses, hstocked⟩ := (always_of_step hstep hstart).of_run hrun
  have hn : n ≠ 0 := by
    rintro rfl
    rw [malloc, if_pos rfl] at hmalloc
    exact hptr (congrArg Prod.snd hmalloc).symm
  have hc : ClassesOk s := by
    have hkept : Kept p.heap (malloc supply p.heap n).1 := malloc_kept hclasses
    rw [hmalloc] at hkept
    exact hkept.classes
  have hst : s.Stocked := by
    have hkept : (malloc supply p.heap n).1.Stocked := malloc_stocked hclasses hstocked
    rwa [hmalloc] at hkept
  constructor
  · rintro ⟨⟨i, hi, hcount, -⟩, -, -, -⟩
    -- only an initialised allocator files blocks, and only under the first class
    have hs' : ClassesOk s' ∧ s'.initialized = true := by
      have hkept := (free_kept hc hfree).classes
      refine ⟨hkept, ?_⟩
      by_contra hno
      rw [findSizeClass_blank hkept (Bool.not_eq_true _ ▸ hno) (Nat.pos_of_ne_zero hn)] at hi
      cases hi
    have hzero : i = 0 := by
      by_contra hne
      rw [(hs'.1.empty hs'.2 i hne).2] at hcount
      exact absurd hcount (Nat.not_lt_zero _)
    subst hzero
    have hsmall : n ≤ 8 := ((findSizeClass_eq hs'.1 hs'.2).mp hi).1
    have hmagic : ¬ s.HasMagic ptr := by
      intro hmagic
      cases depth' with
      | zero => cases hfree
      | succ depth' =>
        rw [free_large (.inr hmagic)] at hfree
        cases hfree
        exact absurd hcount (lt_irrefl _)
    have hs := initialized_of_free hc hptr hmagic hfree
    have hless : s.freeCount < 1024 :=
      room_of_malloc hclasses hstocked hsmall hroom hmalloc
    refine ⟨hsmall, hmagic, ?_⟩
    rcases free_files hc hs hst hptr hmagic hless hfree with ⟨hplace, -⟩ | ⟨-, hsame⟩
    · exact hplace
    · exact absurd hcount (Nat.not_lt_of_le hsame.le)
  · rintro ⟨hsmall, hmagic, hplace⟩
    have hs := initialized_of_free hc hptr hmagic hfree
    have hless : s.freeCount < 1024 :=
      room_of_malloc hclasses hstocked hsmall hroom hmalloc
    rcases free_files hc hs hst hptr hmagic hless hfree with ⟨-, hfiled⟩ | ⟨hno, -⟩
    · exact hfiled.reusable hptr hn hsmall
    · exact absurd hplace hno

/-- The first block, freed and taken again. -/
theorem freed_reusable_first : ∃ s s', malloc unlimited (started (fun _ => 0) 4096).heap 8 = (s, 4128) ∧
    free unlimited 1 s 4128 = some s' ∧
      (Reusable unlimited s s' 4128 8 ↔ 8 ≤ 8 ∧ ¬ s.HasMagic 4128 ∧ s.HasPlace unlimited) := by
  have hptr : (malloc unlimited (started (fun _ => 0) 4096).heap 8).2 = 4128 := by decide +kernel
  have hreturns : (free unlimited 1 (malloc unlimited (started (fun _ => 0) 4096).heap 8).1
      4128).isSome = true := by decide +kernel
  obtain ⟨s', hs'⟩ := Option.isSome_iff_exists.mp hreturns
  have hmalloc := Prod.ext (rfl : _ = (malloc unlimited (started (fun _ => 0) 4096).heap 8).1) hptr
  have hrun : run (heapStep unlimited 1) (started (fun _ => 0) 4096) [] =
      some (started (fun _ => 0) 4096) := rfl
  refine ⟨_, s', hmalloc, hs', ?_⟩
  exact freed_reusable_iff (by decide) hrun (by decide +kernel) hmalloc (by decide) hs'

/-- **A block of 16 bytes** is filed under the class of 8 bytes. -/
theorem freed_not_reusable : ¬ ∀ (supply : Supply) (depth : ℕ) (memory : Cells) (brk : ℕ)
    (calls : List AllocCall) (p : Process) (n : ℕ) (s s' : Allocator) (ptr depth' : ℕ), 0 < brk →
      run (heapStep supply depth) (started memory brk) calls = some p → 1 ≤ n → n ≤ 4096 →
        (∀ i, findSizeClass p.heap n = some i → (p.heap.sizeClasses i).freeCount < 1024) →
          malloc supply p.heap n = (s, ptr) → ptr ≠ 0 → free supply depth' s ptr = some s' →
            Reusable supply s s' ptr n := by
  intro hall
  have hptr : (malloc unlimited (started (fun _ => 0) 4096).heap 16).2 = 4128 := by decide +kernel
  have hfree : (free unlimited 1 (malloc unlimited (started (fun _ => 0) 4096).heap 16).1
      4128).map (fun s => (findSizeClass s 16, (s.sizeClasses 1).freeCount)) = some (some 1, 0) := by
    decide +kernel
  obtain ⟨s', hs', heq⟩ := Option.map_eq_some_iff.mp hfree
  obtain ⟨hclass, hcount⟩ := Prod.mk.inj heq
  have hmalloc := Prod.ext (rfl : _ = (malloc unlimited (started (fun _ => 0) 4096).heap 16).1) hptr
  obtain ⟨i, hi, hmore, -⟩ := (hall unlimited 1 (fun _ => 0) 4096 [] _ 16 _ s' 4128 1 (by decide) rfl
    (by decide) (by decide) (by decide +kernel) hmalloc (by decide) hs').filed
  obtain rfl : 1 = i := Option.some.inj (hclass.symm.trans hi)
  rw [hcount] at hmore
  exact absurd hmore (Nat.not_lt_zero _)

end

end PrismaticOS.Libc
