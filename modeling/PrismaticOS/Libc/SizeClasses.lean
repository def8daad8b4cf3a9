import Mathlib.Order.Monotone.Basic
import PrismaticOS.Libc.Malloc

/-!
# The size classes

What holds of the static variables of the allocator in every run, wherever the blocks are. All
classes have the same arena, so that `free` finds every block in the first class: no other class
ever gets a block back.

## What is proved

* `classOf_eq` — `free` files every block under class 0.
* `step_classes` — the static variables are as they should be (`ClassesOk`) in every run.
* `malloc_statics` — a `malloc` of more than 8 bytes leaves the classes alone.
-/

namespace PrismaticOS.Libc

open PrismaticOS.Library

/-! ### The sizes -/

theorem le_classSize (i : ℕ) : 8 ≤ classSize i := by
  induction i with
  | zero => exact le_rfl
  | succ i ih =>
    rw [classSize]
    split_ifs <;> omega

theorem dvd_classSize (i : ℕ) : 8 ∣ classSize i := by
  induction i with
  | zero => exact Nat.dvd_refl 8
  | succ i ih =>
    rw [classSize]
    split_ifs
    · exact Nat.dvd_mul_right_of_dvd ih 2
    · exact Nat.dvd_add ih (by decide)

/-- The class of the largest small blocks. -/
theorem classSize_nine : classSize 9 = maxSmallSize := by decide

/-! ### What does not change -/

/-- The static variables are the same, and no memory is given back. -/
structure Statics (s s' : Allocator) : Prop where
  /-- `allocator_initialized`. -/
  initialized : s'.initialized = s.initialized
  /-- The classes. -/
  sizeClasses : s'.sizeClasses = s.sizeClasses
  /-- `main_arena`. -/
  mainArena : s'.mainArena = s.mainArena
  /-- The break. -/
  brk : s.brk ≤ s'.brk

section
variable {supply : Supply} {s s' s'' t : Allocator} {n i ptr arena : ℕ}

theorem Statics.refl (s : Allocator) : Statics s s := ⟨rfl, rfl, rfl, le_rfl⟩

theorem Statics.trans (h : Statics s s') (h' : Statics s' s'') : Statics s s'' where
  initialized := h'.initialized.trans h.initialized
  sizeClasses := h'.sizeClasses.trans h.sizeClasses
  mainArena := h'.mainArena.trans h.mainArena
  brk := h.brk.trans h'.brk

theorem statics_store (s : Allocator) (a v : ℕ) : Statics s (s.store a v) := ⟨rfl, rfl, rfl, le_rfl⟩

theorem statics_memory (s : Allocator) (m : Cells) : Statics s { s with memory := m } :=
  ⟨rfl, rfl, rfl, le_rfl⟩

/-- What `sbrk` does. -/
theorem sbrk_cases (supply : Supply) (s : Allocator) (n : ℕ) :
    (supply s.sbrks n = true ∧
      sbrk supply s n = ({ s with brk := s.brk + n, sbrks := s.sbrks + 1 }, some s.brk)) ∨
    (supply s.sbrks n = false ∧ sbrk supply s n = ({ s with sbrks := s.sbrks + 1 }, none)) := by
  unfold sbrk
  cases supply s.sbrks n with
  | true => exact .inl ⟨rfl, rfl⟩
  | false => exact .inr ⟨rfl, rfl⟩

theorem sbrk_statics (supply : Supply) (s : Allocator) (n : ℕ) :
    Statics s (sbrk supply s n).1 := by
  rcases sbrk_cases supply s n with ⟨-, h⟩ | ⟨-, h⟩
  · rw [h]
    exact ⟨rfl, rfl, rfl, Nat.le_add_right ..⟩
  · rw [h]
    exact ⟨rfl, rfl, rfl, le_rfl⟩

theorem ensureChunk_statics (supply : Supply) (s : Allocator) (arena : ℕ) :
    Statics s (ensureChunk supply s arena).1 := by
  unfold ensureChunk
  split_ifs
  · have hsbrk := sbrk_statics supply s chunkBytes
    split
    · rename_i heq
      rwa [heq] at hsbrk
    · rename_i heq
      rw [heq] at hsbrk
      exact hsbrk.trans ((statics_store _ _ _).trans
        ((statics_store _ _ _).trans (statics_store _ _ _)))
  · exact .refl s

theorem allocLarge_statics (supply : Supply) (s : Allocator) (n : ℕ) :
    Statics s (allocLarge supply s n).1 := by
  unfold allocLarge
  have hsbrk := sbrk_statics supply s (pageRound n)
  split
  · rename_i heq
    rwa [heq] at hsbrk
  · rename_i heq
    rw [heq] at hsbrk
    exact hsbrk.trans ((statics_store _ _ _).trans (statics_store _ _ _))

/-- A class without free blocks is left alone. -/
theorem allocFromSizeClass_statics (h : (s.sizeClasses i).freeCount = 0) :
    Statics s (allocFromSizeClass supply s i).1 := by
  have hchunk := ensureChunk_statics supply s (s.sizeClasses i).arena
  unfold allocFromSizeClass
  simp only [h, lt_irrefl, and_false, if_false]
  split
  · rename_i heq
    rwa [heq] at hchunk
  · rename_i heq
    rw [heq] at hchunk
    exact hchunk.trans (statics_store _ _ _)

/-! ### The invariant -/

/-- The static variables are as they should be. -/
structure ClassesOk (s : Allocator) : Prop where
  /-- Before the initialisation all of them are zero. -/
  blank : s.initialized = false → ∀ i, s.sizeClasses i = ⟨0, 0, 0, 0⟩
  /-- The sizes. -/
  size : s.initialized = true → ∀ i, (s.sizeClasses i).size = classSize i
  /-- All classes have the one arena. -/
  arena : s.initialized = true → ∀ i, (s.sizeClasses i).arena = s.mainArena
  /-- Only the first class gets blocks back. -/
  empty : s.initialized = true → ∀ i, i ≠ 0 →
    (s.sizeClasses i).freeList = 0 ∧ (s.sizeClasses i).freeCount = 0
  /-- There is an arena. -/
  position : s.initialized = true → 0 < s.mainArena
  /-- The break is not `NULL`. -/
  brk : 0 < s.brk

theorem ClassesOk.of_statics (h : ClassesOk s) (hs : Statics s s') : ClassesOk s' := by
  obtain ⟨hinit, hclasses, hmain, hbrk⟩ := hs
  constructor
  · rw [hinit, hclasses]
    exact h.blank
  · rw [hinit, hclasses]
    exact h.size
  · rw [hinit, hclasses, hmain]
    exact h.arena
  · rw [hinit, hclasses]
    exact h.empty
  · rw [hinit, hmain]
    exact h.position
  · exact h.brk.trans_le hbrk

/-- Only the first class has an array. -/
theorem ClassesOk.array_class (h : ClassesOk s) (hlist : (s.sizeClasses i).freeList ≠ 0) :
    i = 0 := by
  by_contra hi
  cases hs : s.initialized with
  | true => exact hlist (h.empty hs i hi).1
  | false => exact hlist (by rw [h.blank hs])

/-- Free blocks come to the first class and go. -/
theorem ClassesOk.setClass (h : ClassesOk s) (hs : s.initialized = true) (list count : ℕ) :
    ClassesOk (s.setClass 0 { s.sizeClasses 0 with freeList := list, freeCount := count }) := by
  have hne : ∀ i, i ≠ 0 →
      (s.setClass 0 { s.sizeClasses 0 with freeList := list, freeCount := count }).sizeClasses i =
        s.sizeClasses i := fun i hi => setClass_ne _ _ _ hi
  constructor
  · intro hno
    rw [setClass_initialized, hs] at hno
    cases hno
  · intro _ i
    by_cases hi : i = 0
    · subst hi
      simpa using h.size hs 0
    · rw [hne i hi]
      exact h.size hs i
  · intro _ i
    by_cases hi : i = 0
    · subst hi
      simpa using h.arena hs 0
    · rw [hne i hi]
      exact h.arena hs i
  · intro _ i hi
    rw [hne i hi]
    exact h.empty hs i hi
  · exact fun _ => h.position hs
  · exact h.brk

theorem uninitialized_classes {memory : Cells} {brk : ℕ} (h : 0 < brk) :
    ClassesOk (uninitialized memory brk) where
  blank _ _ := rfl
  size hs := by cases hs
  arena hs := by cases hs
  empty hs := by cases hs
  position hs := by cases hs
  brk := h

theorem initAllocator_eq (h : s.initialized = true) : initAllocator supply s = s := if_pos h

theorem initAllocator_classes (h : ClassesOk s) : ClassesOk (initAllocator supply s) := by
  unfold initAllocator
  split_ifs with hs
  · exact h
  · have hno : s.initialized = false := Bool.not_eq_true _ ▸ hs
    rcases sbrk_cases supply s 32 with ⟨-, heq⟩ | ⟨-, heq⟩
    · simp only [heq]
      constructor
      · intro hinit
        cases hinit
      · exact fun _ _ => rfl
      · exact fun _ _ => rfl
      · exact fun _ _ _ => ⟨rfl, rfl⟩
      · exact fun _ => h.brk
      · exact h.brk.trans_le (Nat.le_add_right ..)
    · simp only [heq]
      constructor
      · exact fun _ => h.blank hno
      · exact fun hinit => absurd hinit hs
      · exact fun hinit => absurd hinit hs
      · exact fun hinit => absurd hinit hs
      · exact fun hinit => absurd hinit hs
      · exact h.brk

/-- The class that is found has blocks that are large enough, and no class before it has. -/
theorem findSizeClass_eq (h : ClassesOk s) (hs : s.initialized = true) :
    findSizeClass s n = some i ↔
      n ≤ classSize i ∧ i < numSizeClasses ∧ ∀ j < i, classSize j < n := by
  rw [findSizeClass, List.find?_range_eq_some]
  simp [h.size hs]

/-- Sizes up to 8 are in the first class. -/
theorem findSizeClass_le (h : ClassesOk s) (hs : s.initialized = true) (hn : n ≤ 8) :
    findSizeClass s n = some 0 :=
  (findSizeClass_eq h hs).mpr ⟨hn, by decide, fun _ hj => absurd hj (Nat.not_lt_zero _)⟩

theorem findSizeClass_ne_zero (h : ClassesOk s) (hs : s.initialized = true) (hn : 8 < n)
    (hi : findSizeClass s n = some i) : i ≠ 0 := by
  rintro rfl
  exact absurd ((findSizeClass_eq h hs).mp hi).1 (not_le.mpr hn)

/-- Small sizes have a class. -/
theorem findSizeClass_small (h : ClassesOk s) (hs : s.initialized = true)
    (hn : n ≤ maxSmallSize) : ∃ i, findSizeClass s n = some i := by
  rw [← Option.isSome_iff_exists, findSizeClass, List.find?_isSome]
  refine ⟨9, by decide, ?_⟩
  rw [h.size hs, classSize_nine]
  exact decide_eq_true hn

/-- Before the initialisation no size has one. -/
theorem findSizeClass_blank (h : ClassesOk s) (hs : s.initialized = false) (hn : 0 < n) :
    findSizeClass s n = none := by
  rw [findSizeClass, List.find?_eq_none]
  intro i _
  rw [h.blank hs]
  simpa using Nat.ne_of_gt hn

/-- **Every block** is filed under class 0. -/
theorem classOf_eq (h : ClassesOk s) (hs : s.initialized = true) : classOf s ptr = some 0 := by
  rw [classOf, findSizeClass_le h hs (by decide)]
  simp only [h.arena hs]
  by_cases hin : s.chunks s.mainArena ≤ ptr ∧
      ptr < s.chunks s.mainArena + s.chunkSize s.mainArena
  · have hfirst : (List.range numSizeClasses).find? (fun _ =>
        decide (s.chunks s.mainArena ≤ ptr ∧
          ptr < s.chunks s.mainArena + s.chunkSize s.mainArena)) = some 0 := by
      rw [List.find?_range_eq_some]
      exact ⟨by simpa using hin, by decide, fun j hj => absurd hj (Nat.not_lt_zero j)⟩
    rw [hfirst]
    rfl
  · rw [List.find?_eq_none.mpr fun i _ => by simpa using hin]
    rfl

/-- The static variables are still as they should be, and an initialisation is not undone. -/
structure Kept (s s' : Allocator) : Prop where
  /-- The static variables. -/
  classes : ClassesOk s'
  /-- The initialisation. -/
  initialized : s.initialized = true → s'.initialized = true

theorem Kept.of_statics (h : Kept s s') (hs : Statics s' s'') : Kept s s'' :=
  ⟨h.classes.of_statics hs, fun hi => hs.initialized.trans (h.initialized hi)⟩

theorem Kept.trans (h : Kept s s') (h' : Kept s' s'') : Kept s s'' :=
  ⟨h'.classes, fun hi => h'.initialized (h.initialized hi)⟩

/-- A small block counts as one of the first class. -/
theorem oldSize_small (h : ClassesOk s) (hs : s.initialized = true) (hmagic : ¬ s.HasMagic ptr) :
    oldSize s ptr = 8 := by
  rw [oldSize, if_neg hmagic, findSizeClass_le h hs (Nat.zero_le _)]
  exact h.size hs 0

theorem allocFromSizeClass_kept (h : ClassesOk s) (hs : s.initialized = true) :
    Kept s (allocFromSizeClass supply s i).1 := by
  have hself : Kept s s := ⟨h, fun hs => hs⟩
  by_cases hi : i = 0
  · subst hi
    by_cases hfree : (s.sizeClasses 0).freeList ≠ 0 ∧ 0 < (s.sizeClasses 0).freeCount
    · rw [allocFromSizeClass]
      simp only [if_pos hfree]
      exact ⟨h.setClass hs _ _, fun hs => hs⟩
    · have hchunk := ensureChunk_statics supply s (s.sizeClasses 0).arena
      rw [allocFromSizeClass]
      simp only [if_neg hfree]
      split
      · rename_i heq
        rw [heq] at hchunk
        exact hself.of_statics hchunk
      · rename_i heq
        rw [heq] at hchunk
        exact hself.of_statics (hchunk.trans (statics_store _ _ _))
  · exact hself.of_statics (allocFromSizeClass_statics (h.empty hs i hi).2)

theorem malloc_kept (h : ClassesOk s) : Kept s (malloc supply s n).1 := by
  have hinit : Kept s (initAllocator supply s) :=
    ⟨initAllocator_classes h, fun hs => by rw [initAllocator_eq hs, hs]⟩
  unfold malloc
  split_ifs with hn hsmall
  · exact ⟨h, fun hs => hs⟩
  · simp only
    split
    · rename_i i hi
      have hs : (initAllocator supply s).initialized = true := by
        by_contra hno
        rw [findSizeClass_blank hinit.classes (Bool.not_eq_true _ ▸ hno) (Nat.pos_of_ne_zero hn)]
          at hi
        cases hi
      exact hinit.trans (allocFromSizeClass_kept hinit.classes hs)
    · exact hinit.of_statics (allocLarge_statics _ _ _)
  · exact hinit.of_statics (allocLarge_statics _ _ _)

/-- **A larger block** is taken from no array of free blocks. -/
theorem malloc_statics (h : ClassesOk s) (hs : s.initialized = true) (hn : 8 < n) :
    Statics s (malloc supply s n).1 := by
  rw [malloc, if_neg (by omega), initAllocator_eq hs]
  simp only
  split_ifs with hsmall
  · split
    · rename_i i hi
      exact allocFromSizeClass_statics (h.empty hs i (findSizeClass_ne_zero h hs hn hi)).2
    · exact allocLarge_statics _ _ _
  · exact allocLarge_statics _ _ _

theorem moveBlock_kept (h : ClassesOk s) : Kept s (moveBlock supply s ptr n).1 := by
  have hmalloc : Kept s (malloc supply s n).1 := malloc_kept h
  unfold moveBlock
  split
  rename_i heq
  rw [heq] at hmalloc
  split_ifs
  · exact hmalloc
  · exact hmalloc.of_statics (statics_memory _ _)

theorem pushFree_classes (h : ClassesOk s) (hs : s.initialized = true) :
    ClassesOk (pushFree s ptr 0) :=
  (h.of_statics (statics_store _ _ _)).setClass hs _ _

/-- What `free` does to a small block. -/
theorem free_small {depth : ℕ} (h : ClassesOk s) (hs : s.initialized = true) (hptr : ptr ≠ 0)
    (hmagic : ¬ s.HasMagic ptr) :
    free supply (depth + 1) s ptr = freeToSizeClass supply (free supply depth) s ptr 0 := by
  have harena : (s.sizeClasses 0).arena ≠ 0 := by
    rw [h.arena hs]
    exact (h.position hs).ne'
  rw [free, if_neg hptr, if_neg hmagic, if_neg harena, classOf_eq h hs]

/-- What `free` does to a large block, and to `NULL`. -/
theorem free_large {depth : ℕ} (hptr : ptr = 0 ∨ s.HasMagic ptr) :
    free supply (depth + 1) s ptr = some s := by
  rw [free]
  split_ifs with hnull hmagic
  · rfl
  · rfl
  · exact absurd hptr (not_or.mpr ⟨hnull, hmagic⟩)
  · exact absurd hptr (not_or.mpr ⟨hnull, hmagic⟩)

/-- Before the initialisation `free` of a block without the magic word does not return. -/
theorem free_crash {depth : ℕ} (h : ClassesOk s) (hs : s.initialized = false) (hptr : ptr ≠ 0)
    (hmagic : ¬ s.HasMagic ptr) : free supply depth s ptr = none := by
  cases depth with
  | zero => rfl
  | succ depth => rw [free, if_neg hptr, if_neg hmagic, if_pos (by rw [h.blank hs])]

/-- A `free` that returns changes nothing, or files a small block. -/
theorem free_cases {depth : ℕ} (h : ClassesOk s) (hrun : free supply (depth + 1) s ptr = some s') :
    s' = s ∨
      s.initialized = true ∧ freeToSizeClass supply (free supply depth) s ptr 0 = some s' := by
  by_cases hlarge : ptr = 0 ∨ s.HasMagic ptr
  · rw [free_large hlarge] at hrun
    exact .inl (Option.some.inj hrun).symm
  · obtain ⟨hptr, hmagic⟩ := not_or.mp hlarge
    cases hs : s.initialized with
    | false =>
      rw [free_crash h hs hptr hmagic] at hrun
      cases hrun
    | true =>
      rw [free_small h hs hptr hmagic] at hrun
      exact .inr ⟨rfl, hrun⟩

/-- What `realloc` keeps, if the `free` that it calls keeps it. -/
theorem reallocWith_kept {release : Allocator → ℕ → Option Allocator} {q : ℕ}
    (hfree : ∀ t t' ptr, ClassesOk t → release t ptr = some t' → Kept t t') (h : ClassesOk s)
    (hrun : reallocWith supply release s ptr n = some (s', q)) : Kept s s' := by
  unfold reallocWith at hrun
  split_ifs at hrun
  · rw [show s' = (malloc supply s n).1 from (congrArg Prod.fst (Option.some.inj hrun)).symm]
    exact malloc_kept h
  · obtain ⟨t, ht, heq⟩ := Option.map_eq_some_iff.mp hrun
    cases heq
    exact hfree _ _ _ h ht
  · cases hrun
    exact ⟨h, fun hs => hs⟩
  · have hmove : Kept s (moveBlock supply s ptr n).1 := moveBlock_kept h
    split at hrun
    rename_i heq
    rw [heq] at hmove
    split_ifs at hrun
    · cases hrun
      exact hmove
    · obtain ⟨t, ht, heq⟩ := Option.map_eq_some_iff.mp hrun
      cases heq
      exact hmove.trans (hfree _ _ _ hmove.classes ht)

theorem freeToSizeClass_kept {release : Allocator → ℕ → Option Allocator}
    (hfree : ∀ t t' ptr, ClassesOk t → release t ptr = some t' → Kept t t') (h : ClassesOk s)
    (hs : s.initialized = true) (hrun : freeToSizeClass supply release s ptr 0 = some s') :
    Kept s s' := by
  simp only [freeToSizeClass] at hrun
  split_ifs at hrun
  · obtain ⟨⟨t, newList⟩, ht, heq⟩ := Option.map_eq_some_iff.mp hrun
    have hkept := reallocWith_kept hfree h ht
    simp only at heq
    split_ifs at heq
    · cases heq
      exact hkept
    · cases heq
      have hlist := hkept.classes.setClass (hkept.initialized hs) newList
        (t.sizeClasses 0).freeCount
      exact ⟨pushFree_classes hlist (hkept.initialized hs), hkept.initialized⟩
  · cases hrun
    exact ⟨pushFree_classes h hs, fun hs => hs⟩
  · cases hrun
    exact ⟨h, fun hs => hs⟩

/-- **`free`** keeps the static variables as they should be, at any depth. -/
theorem free_kept {depth : ℕ} (h : ClassesOk s) (hrun : free supply depth s ptr = some s') :
    Kept s s' := by
  induction depth generalizing s s' ptr with
  | zero => cases hrun
  | succ depth ih =>
    rcases free_cases h hrun with rfl | ⟨hs, hfile⟩
    · exact ⟨h, fun hs => hs⟩
    · exact freeToSizeClass_kept (fun t t' ptr ht hr => ih ht hr) h hs hfile

variable {p p' : Process}

/-- **Every call** keeps the static variables as they should be. -/
theorem step_classes {depth : ℕ} {call : AllocCall} (h : ClassesOk p.heap)
    (hstep : heapStep supply depth p call = some p') : ClassesOk p'.heap := by
  cases call with
  | malloc size =>
    have hkept : Kept p.heap (malloc supply p.heap size).1 := malloc_kept h
    rw [heapStep] at hstep
    cases hstep
    exact hkept.classes
  | free ptr =>
    obtain ⟨b, -, hstep⟩ := Option.bind_eq_some_iff.mp hstep
    obtain ⟨s, hs, heq⟩ := Option.map_eq_some_iff.mp hstep
    cases heq
    exact (free_kept h hs).classes
  | realloc ptr size =>
    obtain ⟨b, -, hstep⟩ := Option.bind_eq_some_iff.mp hstep
    obtain ⟨⟨s, q⟩, hs, heq⟩ := Option.map_eq_some_iff.mp hstep
    have hkept := reallocWith_kept (fun t t' ptr ht hr => free_kept ht hr) h hs
    simp only at heq
    split_ifs at heq <;>
    · cases heq
      exact hkept.classes
  | write ptr offset byte =>
    obtain ⟨b, -, hstep⟩ := Option.bind_eq_some_iff.mp hstep
    split_ifs at hstep
    cases hstep
    exact h.of_statics (statics_memory _ _)

end

end PrismaticOS.Libc
