import PrismaticOS.Libc.FreeRecursion
import PrismaticOS.Libc.MallocBlocks

/-!
# What `free` and `realloc` see of the contents of blocks

`free` and `realloc` tell a large block from a small one by the word before it. Before a small block
that is the memory of another block, and what is there is up to the program.

## The model

Two states of the allocator are compared that agree but for the bytes of live blocks (`Alike` on the
cells that are not `userCells`). `FreeChoice` is what `free` does with a block, and `reallocChoice`
what `realloc` does: `none` if it keeps the block, and otherwise how many bytes it copies.

## What is proved

* `malloc_alike` — a `malloc` of more than 8 bytes does the same in both states.
* `free_alike` — where `free` makes the same choice, and moves no array of free blocks, it does the
  same.
* `contents_unseen_iff` — in every state of every run: the choices are the same exactly if the words
  before the block, and those before the array where it has to grow, say the same of the size.
* `contents_seen` — two blocks of 8 bytes: with some bytes in the first one, the second one is never
  freed.
-/

namespace PrismaticOS.Libc

open PrismaticOS.Library

/-! ### Two states -/

/-- The states agree, their memories on the cells `K`. -/
structure Alike (K : Set ℕ) (s s' : Allocator) : Prop where
  /-- Memory. -/
  memory : Set.EqOn s'.memory s.memory K
  /-- The break. -/
  brk : s'.brk = s.brk
  /-- How often `sbrk` was called. -/
  sbrks : s'.sbrks = s.sbrks
  /-- `main_arena`. -/
  mainArena : s'.mainArena = s.mainArena
  /-- `size_classes`. -/
  sizeClasses : s'.sizeClasses = s.sizeClasses
  /-- `allocator_initialized`. -/
  initialized : s'.initialized = s.initialized

/-- Both calls return and leave states that agree, or neither returns. -/
def AlikeResults (K : Set ℕ) : Option Allocator → Option Allocator → Prop
  | some s, some s' => Alike K s s'
  | none, none => True
  | _, _ => False

/-- The cells of live blocks that are not the allocator's own. -/
def Process.userCells (p : Process) : Set ℕ :=
  {x | (∃ b ∈ p.live, b.ptr ≤ x ∧ x < b.ptr + b.size) ∧ ∀ r ∈ p.metadata, x < r.start ∨ r.stop ≤ x}

/-- What `realloc` does with a block that is to have `m` bytes: it keeps it, or it moves it and copies
so many bytes. -/
def reallocChoice (s : Allocator) (ptr m : ℕ) : Option ℕ :=
  if m ≤ oldSize s ptr then none else some (min (oldSize s ptr) m)

/-- What `free` does with a block. -/
inductive FreeChoice where
  /-- It takes it for a large block. -/
  | large
  /-- It reads through the arena that is not there. -/
  | crash
  /-- It does not file it. -/
  | drop
  /-- It files it under the class `i`. -/
  | file (i : ℕ)
  /-- So it does, but moves the array first, copies `n` bytes of it, and takes the old array for a
  large block or not. -/
  | move (i n : ℕ) (large : Bool)
  deriving DecidableEq

/-- The choice where the array of free blocks of a class has to be made longer. -/
def listChoice (s : Allocator) (i : ℕ) : FreeChoice :=
  match reallocChoice s (s.sizeClasses i).freeList (s.sizeClasses i).longer with
  | none => .file i
  | some n => .move i n (decide (s.HasMagic (s.sizeClasses i).freeList))

/-- The choice of `free`. -/
def freeChoice (s : Allocator) (ptr : ℕ) : FreeChoice :=
  if s.HasMagic ptr then .large
  else if (s.sizeClasses 0).arena = 0 then .crash
  else
    match classOf s ptr with
    | none => .drop
    | some i =>
      let sc := s.sizeClasses i
      if sc.freeCount < 1024 then
        if sc.freeCount % 64 = 0 ∧ sc.freeList ≠ 0 then listChoice s i else .file i
      else .drop

/-- `free` and `realloc` treat the block the same in both states: they make the same choices, and
where `free` does not move an array it leaves states that agree. -/
structure SameTreatment (supply : Supply) (p : Process) (s' : Allocator) (ptr : ℕ) : Prop where
  /-- The choice of `free`. -/
  free : freeChoice s' ptr = freeChoice p.heap ptr
  /-- What it does. -/
  result : (∀ i n large, freeChoice p.heap ptr ≠ .move i n large) → ∀ depth,
    AlikeResults (p.userCells)ᶜ (Libc.free supply depth p.heap ptr) (Libc.free supply depth s' ptr)
  /-- The choice of `realloc`. -/
  realloc : ∀ m, m ≠ 0 → reallocChoice s' ptr m = reallocChoice p.heap ptr m

/-- The size that the header before a block has, without the header. -/
def Allocator.headerSize (s : Allocator) (ptr : ℕ) : ℕ := (s.load (ptr - 16) + 2 ^ 64 - 16) % 2 ^ 64

/-- The words before the block say the same: they are a header in both states or in none, and if they
are, with the same size. -/
def SameHeader (s s' : Allocator) (ptr : ℕ) : Prop :=
  (s'.HasMagic ptr ↔ s.HasMagic ptr) ∧ (s.HasMagic ptr → s'.headerSize ptr = s.headerSize ptr)

/-- The array of free blocks has to be made longer. -/
def Allocator.Grows (s : Allocator) : Prop :=
  s.initialized = true ∧ (s.sizeClasses 0).freeCount < 1024 ∧ (s.sizeClasses 0).freeCount % 64 = 0 ∧
    (s.sizeClasses 0).freeList ≠ 0

/-- So it is before the block; and where a small block is freed and the array has to be made longer,
it is so before the array, or both headers there have a size that is enough. -/
def SeenAlike (s s' : Allocator) (ptr : ℕ) : Prop :=
  let sc := s.sizeClasses 0
  SameHeader s s' ptr ∧ (¬ s.HasMagic ptr → s.Grows →
    SameHeader s s' sc.freeList ∨
      (s.HasMagic sc.freeList ∧ s'.HasMagic sc.freeList ∧ sc.longer ≤ s.headerSize sc.freeList ∧
        sc.longer ≤ s'.headerSize sc.freeList))

section
variable {K : Set ℕ} {supply : Supply} {s s' t t' : Allocator} {a n i v ptr depth : ℕ} {p : Process}

namespace Alike

/-- The same word is written to both. -/
theorem store (h : Alike K s s') (a v : ℕ) : Alike K (s.store a v) (s'.store a v) := by
  refine ⟨fun x hx => ?_, h.brk, h.sbrks, h.mainArena, h.sizeClasses, h.initialized⟩
  show storeWord s'.memory a v x = storeWord s.memory a v x
  rw [storeWord, storeWord, h.memory hx]

/-- The same class is changed in both. -/
theorem setClass (h : Alike K s s') (i : ℕ) (sc : SizeClass) :
    Alike K (s.setClass i sc) (s'.setClass i sc) := by
  refine ⟨h.memory, h.brk, h.sbrks, h.mainArena, ?_, h.initialized⟩
  show (fun j => if j = i then sc else s'.sizeClasses j) = fun j => if j = i then sc else s.sizeClasses j
  rw [h.sizeClasses]

theorem refused (h : Alike K s s') : Alike K s.refused s'.refused := by
  refine ⟨h.memory, h.brk, ?_, h.mainArena, h.sizeClasses, h.initialized⟩
  show s'.sbrks + 1 = s.sbrks + 1
  rw [h.sbrks]

theorem granted (h : Alike K s s') (n : ℕ) : Alike K (s.granted n) (s'.granted n) := by
  refine ⟨h.memory, ?_, ?_, h.mainArena, h.sizeClasses, h.initialized⟩
  · show s'.brk + n = s.brk + n
    rw [h.brk]
  · show s'.sbrks + 1 = s.sbrks + 1
    rw [h.sbrks]

/-- A word of cells that agree is the same. -/
theorem load (h : Alike K s s') (ha : ∀ x, a ≤ x → x < a + 8 → x ∈ K) : s'.load a = s.load a :=
  loadWord_congr fun x h₁ h₂ => h.memory (ha x h₁ h₂)

theorem classes (h : Alike K s s') (hc : ClassesOk s) : ClassesOk s' :=
  hc.of_statics ⟨h.initialized, h.sizeClasses, h.mainArena, h.brk.ge⟩

end Alike

/-! ### `malloc` -/

/-- The arena is the same. -/
theorem Alike.arena (h : Alike K s s') (ha : ∀ x, a ≤ x → x < a + 32 → x ∈ K) :
    s'.chunks a = s.chunks a ∧ s'.chunkSize a = s.chunkSize a ∧ s'.used a = s.used a :=
  ⟨h.load fun x h₁ h₂ => ha x (by omega) (by omega), h.load fun x h₁ h₂ => ha x (by omega) (by omega),
    h.load fun x h₁ h₂ => ha x (by omega) (by omega)⟩

/-- `sbrk` gives the same memory in both states, or none. -/
theorem sbrk_alike (h : Alike K s s') (supply : Supply) (n : ℕ) :
    (sbrk supply s n = (s.granted n, some s.brk) ∧ sbrk supply s' n = (s'.granted n, some s.brk)) ∨
      (sbrk supply s n = (s.refused, none) ∧ sbrk supply s' n = (s'.refused, none)) := by
  rcases sbrk_cases supply s n with ⟨hsupply, heq⟩ | ⟨hsupply, heq⟩
  · refine .inl ⟨heq, ?_⟩
    rw [sbrk, h.sbrks, if_pos hsupply, h.brk, ← h.sbrks, Allocator.granted, h.brk]
  · refine .inr ⟨heq, ?_⟩
    rw [sbrk, h.sbrks, hsupply, if_neg Bool.false_ne_true, ← h.sbrks, Allocator.refused]

theorem ensureChunk_alike (supply : Supply) (h : Alike K s s') (ha : ∀ x, a ≤ x → x < a + 32 → x ∈ K) :
    (ensureChunk supply s' a).2 = (ensureChunk supply s a).2 ∧
      Alike K (ensureChunk supply s a).1 (ensureChunk supply s' a).1 := by
  obtain ⟨hchunks, hsize, hused⟩ := h.arena ha
  unfold ensureChunk
  rw [hchunks, hsize, hused]
  split
  · rcases sbrk_alike h supply chunkBytes with ⟨hs, hs'⟩ | ⟨hs, hs'⟩
    · rw [hs, hs']
      exact ⟨rfl, (((h.granted chunkBytes).store (a + 8) s.brk).store (a + 16) chunkBytes).store
        (a + 24) 0⟩
    · rw [hs, hs']
      exact ⟨rfl, h.refused⟩
  · exact ⟨rfl, h⟩

/-- A class without free blocks. -/
theorem carve_alike (h : Alike K s s') (ha : ∀ x, (s.sizeClasses i).arena ≤ x →
    x < (s.sizeClasses i).arena + 32 → x ∈ K) (hempty : (s.sizeClasses i).freeCount = 0) :
    (allocFromSizeClass supply s' i).2 = (allocFromSizeClass supply s i).2 ∧
      Alike K (allocFromSizeClass supply s i).1 (allocFromSizeClass supply s' i).1 := by
  obtain ⟨hok, hchunk⟩ := ensureChunk_alike supply h ha
  unfold allocFromSizeClass
  simp only [h.sizeClasses, hempty, lt_irrefl, and_false, if_false]
  cases hs : ensureChunk supply s (s.sizeClasses i).arena with
  | mk t ok =>
    cases hs' : ensureChunk supply s' (s.sizeClasses i).arena with
    | mk t' ok' =>
      rw [hs, hs'] at hok hchunk
      obtain rfl : ok' = ok := hok
      obtain ⟨hchunks, -, hused⟩ := hchunk.arena ha
      cases ok' with
      | true =>
        dsimp only
        rw [hchunks, hused]
        exact ⟨rfl, hchunk.store _ _⟩
      | false => exact ⟨rfl, hchunk⟩

theorem allocLarge_alike (h : Alike K s s') (n : ℕ) :
    (allocLarge supply s' n).2 = (allocLarge supply s n).2 ∧
      Alike K (allocLarge supply s n).1 (allocLarge supply s' n).1 := by
  unfold allocLarge
  rcases sbrk_alike h supply (pageRound n) with ⟨hs, hs'⟩ | ⟨hs, hs'⟩
  · rw [hs, hs']
    exact ⟨rfl, ((h.granted (pageRound n)).store s.brk (pageRound n)).store (s.brk + 8) blockMagic⟩
  · rw [hs, hs']
    exact ⟨rfl, h.refused⟩

/-- **A larger `malloc`** does the same in both states. -/
theorem malloc_alike (supply : Supply) (h : Alike K s s') (hc : ClassesOk s) (hs : s.initialized = true)
    (ha : ∀ x, s.mainArena ≤ x → x < s.mainArena + 32 → x ∈ K) (hn : 8 < n) :
    (malloc supply s' n).2 = (malloc supply s n).2 ∧
      Alike K (malloc supply s n).1 (malloc supply s' n).1 := by
  have hclass : findSizeClass s' n = findSizeClass s n := by
    rw [findSizeClass, h.sizeClasses, findSizeClass]
  have hmalloc : ∀ u : Allocator, u.initialized = true → malloc supply u n =
      if n ≤ maxSmallSize then
        (findSizeClass u n).elim (allocLarge supply u n) (allocFromSizeClass supply u)
      else allocLarge supply u n := by
    intro u hu
    have hne : n ≠ 0 := by omega
    simp only [malloc, hne, if_false, initAllocator_eq hu]
    cases findSizeClass u n with
    | none => rfl
    | some i => rfl
  rw [hmalloc s hs, hmalloc s' (h.initialized.trans hs), hclass]
  split
  · cases hi : findSizeClass s n with
    | none => exact allocLarge_alike h n
    | some i =>
      have hne := findSizeClass_ne_zero hc hs hn hi
      rw [Option.elim_some, Option.elim_some]
      refine carve_alike h ?_ (hc.empty hs i hne).2
      rw [hc.arena hs i]
      exact ha
  · exact allocLarge_alike h n

/-! ### The choices -/

/-- The guess at the size of a block. -/
theorem oldSize_eq (hc : ClassesOk s) :
    oldSize s ptr = if s.HasMagic ptr then s.headerSize ptr else if s.initialized then 8 else 0 := by
  unfold oldSize
  split
  · rfl
  · cases hs : s.initialized with
    | true =>
      rw [findSizeClass_le hc hs (Nat.zero_le _)]
      exact hc.size hs 0
    | false =>
      have hclass : findSizeClass s 0 = some 0 := by
        rw [findSizeClass, List.find?_range_eq_some]
        exact ⟨by simp, by decide, fun j hj => absurd hj (Nat.not_lt_zero j)⟩
      rw [hclass]
      show (s.sizeClasses 0).size = 0
      rw [hc.blank hs]

/-- The choices of `realloc` are the same exactly if the guesses are. -/
theorem reallocChoice_iff :
    (∀ m, m ≠ 0 → reallocChoice s' ptr m = reallocChoice s ptr m) ↔ oldSize s' ptr = oldSize s ptr := by
  constructor
  · intro h
    by_contra hne
    -- the larger of the two is enough in one state only
    have hchoice := h (max (oldSize s' ptr) (oldSize s ptr)) (by omega)
    unfold reallocChoice at hchoice
    rcases Nat.lt_or_gt_of_ne hne with hlt | hlt
    · rw [if_neg (by omega), if_pos (by omega)] at hchoice
      cases hchoice
    · rw [if_pos (by omega), if_neg (by omega)] at hchoice
      cases hchoice
  · intro h m _
    rw [reallocChoice, h, reallocChoice]

/-- The array of free blocks is not kept where it is by chance: its blocks have no header. -/
theorem reallocChoice_list (hc : ClassesOk s) (hs : s.initialized = true) :
    reallocChoice s (s.sizeClasses 0).freeList (s.sizeClasses 0).longer = none ↔
      s.HasMagic (s.sizeClasses 0).freeList ∧
        (s.sizeClasses 0).longer ≤ s.headerSize (s.sizeClasses 0).freeList := by
  have hlong : 512 ≤ (s.sizeClasses 0).longer := by
    rw [SizeClass.longer]
    omega
  rw [reallocChoice, oldSize_eq hc]
  by_cases hm : s.HasMagic (s.sizeClasses 0).freeList
  · rw [if_pos hm]
    split
    · rename_i hle
      exact iff_of_true rfl ⟨hm, hle⟩
    · rename_i hle
      exact iff_of_false (Option.some_ne_none _) fun h => hle h.2
  · rw [if_neg hm, if_pos hs, if_neg (by omega)]
    exact iff_of_false (Option.some_ne_none _) fun h => hm h.1

/-- The choice of `free` for a block without a header. -/
theorem freeChoice_small (hc : ClassesOk s) (hs : s.initialized = true) (hm : ¬ s.HasMagic ptr) :
    freeChoice s ptr =
      let sc := s.sizeClasses 0
      if sc.freeCount < 1024 then
        if sc.freeCount % 64 = 0 ∧ sc.freeList ≠ 0 then listChoice s 0 else .file 0
      else .drop := by
  have harena : (s.sizeClasses 0).arena ≠ 0 := by
    rw [hc.arena hs]
    exact (hc.position hs).ne'
  rw [freeChoice, if_neg hm, if_neg harena, classOf_eq hc hs]

/-- There is no arena yet. -/
theorem freeChoice_crash (hc : ClassesOk s) (hs : s.initialized = false) (hm : ¬ s.HasMagic ptr) :
    freeChoice s ptr = .crash := by
  have harena : (s.sizeClasses 0).arena = 0 := by rw [hc.blank hs]
  rw [freeChoice, if_neg hm, if_pos harena]

/-- Only a block with a header is taken for a large one. -/
theorem freeChoice_large_iff : freeChoice s ptr = .large ↔ s.HasMagic ptr := by
  unfold freeChoice
  by_cases hm : s.HasMagic ptr
  · rw [if_pos hm]
    exact iff_of_true rfl hm
  · rw [if_neg hm]
    refine iff_of_false ?_ hm
    split
    · nofun
    · split
      · nofun
      · dsimp only
        split_ifs
        · unfold listChoice
          split <;> nofun
        · nofun
        · nofun

/-- A block that is moved is copied as a whole. -/
theorem reallocChoice_some (h : reallocChoice s ptr n = some i) : i = oldSize s ptr := by
  unfold reallocChoice at h
  split at h
  · cases h
  · rename_i hlt
    rw [← Option.some.inj h, Nat.min_eq_left (Nat.le_of_not_le hlt)]

/-- The guesses are the same exactly if the words say the same, but for a header in one state. -/
theorem oldSize_iff (h : Alike K s s') (hc : ClassesOk s) (hm : s'.HasMagic ptr ↔ s.HasMagic ptr) :
    oldSize s' ptr = oldSize s ptr ↔ SameHeader s s' ptr := by
  rw [oldSize_eq hc, oldSize_eq (h.classes hc), SameHeader, and_iff_right hm, h.initialized]
  by_cases hs : s.HasMagic ptr
  · rw [if_pos hs, if_pos (hm.mpr hs)]
    exact ⟨fun heq _ => heq, fun heq => heq hs⟩
  · rw [if_neg hs, if_neg (hm.not.mpr hs)]
    exact iff_of_true rfl fun hyes => absurd hyes hs

/-- The choice for the array is the same exactly if the words before it say the same, or the array
stays where it is in both states. -/
theorem listChoice_iff (h : Alike K s s') (hc : ClassesOk s) (hs : s.initialized = true) :
    listChoice s' 0 = listChoice s 0 ↔
      SameHeader s s' (s.sizeClasses 0).freeList ∨
        (s.HasMagic (s.sizeClasses 0).freeList ∧ s'.HasMagic (s.sizeClasses 0).freeList ∧
          (s.sizeClasses 0).longer ≤ s.headerSize (s.sizeClasses 0).freeList ∧
            (s.sizeClasses 0).longer ≤ s'.headerSize (s.sizeClasses 0).freeList) := by
  have hkept := reallocChoice_list hc hs
  have hkept' := reallocChoice_list (h.classes hc) (h.initialized.trans hs)
  unfold listChoice
  rw [h.sizeClasses] at hkept' ⊢
  cases hx : reallocChoice s (s.sizeClasses 0).freeList (s.sizeClasses 0).longer with
  | none =>
    obtain ⟨hm, hle⟩ := hkept.mp hx
    cases hx' : reallocChoice s' (s.sizeClasses 0).freeList (s.sizeClasses 0).longer with
    | none =>
      obtain ⟨hm', hle'⟩ := hkept'.mp hx'
      exact iff_of_true rfl (.inr ⟨hm, hm', hle, hle'⟩)
    | some n' =>
      refine iff_of_false nofun fun hno => ?_
      rw [hkept'.mpr] at hx'
      · cases hx'
      · rcases hno with hsame | ⟨-, hm', -, hle'⟩
        · exact ⟨hsame.1.mpr hm, (hsame.2 hm).symm ▸ hle⟩
        · exact ⟨hm', hle'⟩
  | some n =>
    cases hx' : reallocChoice s' (s.sizeClasses 0).freeList (s.sizeClasses 0).longer with
    | none =>
      obtain ⟨hm', hle'⟩ := hkept'.mp hx'
      refine iff_of_false nofun fun hno => ?_
      rw [hkept.mpr] at hx
      · cases hx
      · rcases hno with hsame | ⟨hm, -, hle, -⟩
        · have hm := hsame.1.mp hm'
          exact ⟨hm, hsame.2 hm ▸ hle'⟩
        · exact ⟨hm, hle⟩
    | some n' =>
      have hno : ¬ (s.HasMagic (s.sizeClasses 0).freeList ∧
          s'.HasMagic (s.sizeClasses 0).freeList ∧
            (s.sizeClasses 0).longer ≤ s.headerSize (s.sizeClasses 0).freeList ∧
              (s.sizeClasses 0).longer ≤ s'.headerSize (s.sizeClasses 0).freeList) := by
        rintro ⟨hm, -, hle, -⟩
        rw [hkept.mpr ⟨hm, hle⟩] at hx
        cases hx
      rw [or_iff_left hno, FreeChoice.move.injEq, and_iff_right rfl, decide_eq_decide,
        reallocChoice_some hx, reallocChoice_some hx']
      constructor
      · rintro ⟨hold, hm⟩
        exact (oldSize_iff h hc hm).mp hold
      · intro hsame
        exact ⟨(oldSize_iff h hc hsame.1).mpr hsame, hsame.1⟩

/-- **The choices are the same** exactly if the words say the same. -/
theorem choices_iff (h : Alike K s s') (hc : ClassesOk s) :
    (freeChoice s' ptr = freeChoice s ptr ∧
        ∀ m, m ≠ 0 → reallocChoice s' ptr m = reallocChoice s ptr m) ↔ SeenAlike s s' ptr := by
  rw [reallocChoice_iff, SeenAlike]
  by_cases hm : s'.HasMagic ptr ↔ s.HasMagic ptr
  swap
  · -- the block is taken for a large one in one of the states
    refine iff_of_false (fun hchoice => hm ?_) fun hseen => hm hseen.1.1
    rw [← freeChoice_large_iff, ← freeChoice_large_iff, hchoice.1]
  rw [oldSize_iff h hc hm, and_comm]
  refine and_congr_right fun _ => ?_
  by_cases hlarge : s.HasMagic ptr
  · exact iff_of_true (by rw [freeChoice_large_iff.mpr hlarge, freeChoice_large_iff.mpr (hm.mpr hlarge)])
      fun hno => absurd hlarge hno
  rw [forall_prop_of_true hlarge]
  have hsmall : ¬ s'.HasMagic ptr := hm.not.mpr hlarge
  cases hs : s.initialized with
  | false =>
    refine iff_of_true ?_ fun hgrows => absurd (hs.symm.trans hgrows.1) Bool.false_ne_true
    rw [freeChoice_crash hc hs hlarge, freeChoice_crash (h.classes hc) (h.initialized.trans hs) hsmall]
  | true =>
    rw [freeChoice_small hc hs hlarge, freeChoice_small (h.classes hc) (h.initialized.trans hs) hsmall,
      h.sizeClasses]
    dsimp only
    by_cases hcount : (s.sizeClasses 0).freeCount < 1024
    · rw [if_pos hcount, if_pos hcount]
      by_cases hgrow : (s.sizeClasses 0).freeCount % 64 = 0 ∧ (s.sizeClasses 0).freeList ≠ 0
      · have hgrows : s.Grows := ⟨hs, hcount, hgrow.1, hgrow.2⟩
        rw [if_pos hgrow, if_pos hgrow, forall_prop_of_true hgrows]
        exact listChoice_iff h hc hs
      · rw [if_neg hgrow, if_neg hgrow]
        exact iff_of_true rfl fun hgrows => absurd ⟨hgrows.2.2.1, hgrows.2.2.2⟩ hgrow
    · rw [if_neg hcount, if_neg hcount]
      exact iff_of_true rfl fun hgrows => absurd hgrows.2.1 hcount

/-! ### `free` -/

theorem pushFree_alike (h : Alike K s s') (ptr i : ℕ) : Alike K (pushFree s ptr i) (pushFree s' ptr i) := by
  unfold pushFree
  rw [h.sizeClasses]
  exact (h.store _ _).setClass _ _

/-- An array that is not moved is taken for one that is long enough. -/
theorem listChoice_stays (hmove : ∀ i n large, listChoice s 0 ≠ .move i n large) :
    ((s.sizeClasses 0).freeCount + 64) * 8 ≤ oldSize s (s.sizeClasses 0).freeList := by
  by_contra hlt
  refine hmove 0 (min (oldSize s (s.sizeClasses 0).freeList) (s.sizeClasses 0).longer)
    (decide (s.HasMagic (s.sizeClasses 0).freeList)) ?_
  rw [listChoice, reallocChoice, if_neg (show ¬ (s.sizeClasses 0).longer ≤ _ from hlt)]

/-- A block is filed alike, if an array that is full is long enough for more in both states. -/
theorem freeToSizeClass_alike {release release' : Allocator → ℕ → Option Allocator}
    (h : Alike K s s') (hc : ClassesOk s) (hs : s.initialized = true)
    (ha : ∀ x, s.mainArena ≤ x → x < s.mainArena + 32 → x ∈ K)
    (hstays : (s.sizeClasses 0).freeCount < 1024 → (s.sizeClasses 0).freeCount % 64 = 0 →
      (s.sizeClasses 0).freeList ≠ 0 →
        ((s.sizeClasses 0).freeCount + 64) * 8 ≤ oldSize s (s.sizeClasses 0).freeList ∧
          ((s.sizeClasses 0).freeCount + 64) * 8 ≤ oldSize s' (s.sizeClasses 0).freeList) :
    AlikeResults K (freeToSizeClass supply release s ptr 0)
      (freeToSizeClass supply release' s' ptr 0) := by
  unfold freeToSizeClass
  rw [h.sizeClasses]
  dsimp only
  by_cases hcount : (s.sizeClasses 0).freeCount < 1024
  swap
  · rw [if_neg hcount, if_neg hcount]
    exact h
  rw [if_pos hcount, if_pos hcount]
  by_cases hgrow : (s.sizeClasses 0).freeCount % 64 = 0
  swap
  · rw [if_neg hgrow, if_neg hgrow]
    exact pushFree_alike h ptr 0
  rw [if_pos hgrow, if_pos hgrow, reallocWith, reallocWith]
  by_cases hlist : (s.sizeClasses 0).freeList = 0
  · -- there is no array yet
    rw [if_pos hlist, if_pos hlist]
    obtain ⟨hptr, hnew⟩ := malloc_alike supply h hc hs ha
      (n := ((s.sizeClasses 0).freeCount + 64) * 8) (by omega)
    rw [Option.map_some, Option.map_some, hptr]
    split
    · exact hnew
    · rw [hnew.sizeClasses]
      exact pushFree_alike (hnew.setClass _ _) _ _
  · -- it stays where it is
    obtain ⟨hle, hle'⟩ := hstays hcount hgrow hlist
    have hlong : ((s.sizeClasses 0).freeCount + 64) * 8 ≠ 0 := by omega
    rw [if_neg hlist, if_neg hlist, if_neg hlong, if_neg hlong, if_pos hle, if_pos hle',
      Option.map_some, Option.map_some, if_neg hlist, if_neg hlist, h.sizeClasses]
    exact pushFree_alike (h.setClass 0 _) ptr 0

/-- **Where `free` makes the same choice** and moves no array, it does the same. -/
theorem free_alike (h : Alike K s s') (hc : ClassesOk s) (hptr : ptr ≠ 0)
    (ha : s.initialized = true → ∀ x, s.mainArena ≤ x → x < s.mainArena + 32 → x ∈ K)
    (hchoice : freeChoice s' ptr = freeChoice s ptr)
    (hmove : ∀ i n large, freeChoice s ptr ≠ .move i n large) :
    AlikeResults K (free supply depth s ptr) (free supply depth s' ptr) := by
  cases depth with
  | zero => trivial
  | succ depth =>
    have hc' := h.classes hc
    by_cases hm : s.HasMagic ptr
    · have hm' : s'.HasMagic ptr := freeChoice_large_iff.mp (hchoice.trans (freeChoice_large_iff.mpr hm))
      rw [free_large (.inr hm), free_large (.inr hm')]
      exact h
    have hm' : ¬ s'.HasMagic ptr := fun hm' =>
      hm (freeChoice_large_iff.mp (hchoice.symm.trans (freeChoice_large_iff.mpr hm')))
    cases hs : s.initialized with
    | false =>
      rw [free_crash hc hs hptr hm, free_crash hc' (h.initialized.trans hs) hptr hm']
      trivial
    | true =>
      have hs' := h.initialized.trans hs
      rw [free_small hc hs hptr hm, free_small hc' hs' hptr hm']
      rw [freeChoice_small hc' hs' hm', freeChoice_small hc hs hm, h.sizeClasses] at hchoice
      rw [freeChoice_small hc hs hm] at hmove
      refine freeToSizeClass_alike h hc hs (ha hs) fun hcount hgrow hlist => ?_
      dsimp only at hchoice hmove
      rw [if_pos hcount, if_pos ⟨hgrow, hlist⟩] at hmove
      rw [if_pos hcount, if_pos hcount, if_pos ⟨hgrow, hlist⟩, if_pos ⟨hgrow, hlist⟩] at hchoice
      have hstays' := listChoice_stays fun i n large => hchoice.trans_ne (hmove i n large)
      rw [h.sizeClasses] at hstays'
      exact ⟨listChoice_stays hmove, hstays'⟩

/-! ### Runs -/

/-- What holds in every run: the static variables are as they should be, and blocks are not at
`NULL`. -/
structure Usable (p : Process) : Prop where
  /-- The static variables. -/
  classes : ClassesOk p.heap
  /-- The blocks. -/
  ptr_ne_zero : ∀ b ∈ p.live, b.ptr ≠ 0

theorem started_usable {memory : Cells} {brk : ℕ} (hbrk : 0 < brk) : Usable (started memory brk) :=
  ⟨uninitialized_classes hbrk, fun _ hb => absurd hb List.not_mem_nil⟩

/-- **Every call** keeps it. -/
theorem Usable.step {p' : Process} {call : AllocCall} (h : Usable p)
    (hstep : heapStep supply depth p call = some p') : Usable p' := by
  refine ⟨step_classes h.classes hstep, ?_⟩
  have hcons : ∀ (b' : Block) (live : List Block), b'.ptr ≠ 0 → (∀ b ∈ live, b.ptr ≠ 0) →
      ∀ b ∈ b' :: live, b.ptr ≠ 0 := by
    intro b' live hb' hlive b hb
    rcases List.mem_cons.mp hb with rfl | hb
    · exact hb'
    · exact hlive b hb
  have herase : ∀ b', ∀ b ∈ p.live.erase b', b.ptr ≠ 0 :=
    fun b' b hb => h.ptr_ne_zero b (List.mem_of_mem_erase hb)
  cases call with
  | malloc size =>
    cases hm : malloc supply p.heap size with
    | mk s q =>
      rw [heapStep, hm] at hstep
      cases hstep
      dsimp only
      split_ifs with hq
      · exact h.ptr_ne_zero
      · exact hcons _ _ hq h.ptr_ne_zero
  | free ptr =>
    obtain ⟨b, -, hstep⟩ := Option.bind_eq_some_iff.mp hstep
    obtain ⟨s, -, heq⟩ := Option.map_eq_some_iff.mp hstep
    cases heq
    exact herase b
  | realloc ptr size =>
    obtain ⟨b, hb, hstep⟩ := Option.bind_eq_some_iff.mp hstep
    obtain ⟨⟨s, q⟩, -, heq⟩ := Option.map_eq_some_iff.mp hstep
    simp only at heq
    split_ifs at heq with hq hsize hsame
    · cases heq
      exact herase b
    · cases heq
      exact h.ptr_ne_zero
    · cases heq
      exact hcons _ _ (h.ptr_ne_zero b (List.mem_of_find?_eq_some hb)) (herase b)
    · cases heq
      exact hcons _ _ hq (herase b)
  | write ptr offset byte =>
    obtain ⟨b, -, hstep⟩ := Option.bind_eq_some_iff.mp hstep
    split at hstep
    · cases hstep
      exact h.ptr_ne_zero
    · cases hstep

/-- The arena is the allocator's own. -/
theorem arena_not_userCells (hs : p.heap.initialized = true) {x : ℕ} (hlow : p.heap.mainArena ≤ x)
    (hlt : x < p.heap.mainArena + 32) : x ∈ (p.userCells)ᶜ := by
  rintro ⟨-, hown⟩
  have harena : p.heap.arena ∈ p.metadata := by
    rw [Process.metadata, if_pos hs]
    exact List.mem_append_left _ List.mem_cons_self
  rcases hown _ harena with hx | hx
  · exact absurd hlow (Nat.not_le_of_lt hx)
  · exact absurd hlt (Nat.not_lt_of_le hx)

/-- **What the contents of blocks decide.** In every state of every run, `free` and `realloc` treat a
live block the same, whatever the other bytes of live blocks are, exactly if the words before the
block say the same, and those before the array if it has to be made longer. -/
theorem contents_unseen_iff {memory : Cells} {brk : ℕ} (hbrk : 0 < brk) {calls : List AllocCall}
    (hrun : run (heapStep supply depth) (started memory brk) calls = some p) {s' : Allocator}
    (halike : Alike (p.userCells)ᶜ p.heap s') {b : Block} (hb : b ∈ p.live) :
    SameTreatment supply p s' b.ptr ↔ SeenAlike p.heap s' b.ptr := by
  have husable : Usable p :=
    (always_of_step (fun _ _ _ => Usable.step) (started_usable hbrk)).of_run hrun
  rw [← choices_iff halike husable.classes]
  constructor
  · intro h
    exact ⟨h.free, h.realloc⟩
  · rintro ⟨hfree, hrealloc⟩
    refine ⟨hfree, fun hmove depth => ?_, hrealloc⟩
    exact free_alike halike husable.classes (husable.ptr_ne_zero b hb)
      (fun hs x => arena_not_userCells hs) hfree hmove

/-- A word in a live block is not the allocator's own. -/
theorem store_alike {b : Block} (hb : b ∈ p.live) (hlow : b.ptr ≤ a) (hstop : a + 8 ≤ b.ptr + b.size)
    (hown : ∀ r ∈ p.metadata, r.stop ≤ a ∨ a + 8 ≤ r.start) (v : ℕ) :
    Alike (p.userCells)ᶜ p.heap (p.heap.store a v) := by
  refine ⟨fun x hx => storeWord_out ?_, rfl, rfl, rfl, rfl, rfl⟩
  by_contra hin
  refine hx ⟨⟨b, hb, by omega, by omega⟩, fun r hr => ?_⟩
  rcases hown r hr with hr | hr
  · exact .inr (by omega)
  · exact .inl (by omega)

/-- Two blocks of 8 bytes, one behind the other: the first may be filled. -/
theorem two_blocks : ∃ p, run (heapStep unlimited 1) (started (fun _ => 0) 4096)
    [.malloc 8, .malloc 8] = some p ∧ ⟨4136, 8, none⟩ ∈ p.live ∧ ¬ p.heap.HasMagic 4136 ∧
      ∀ v, Alike (p.userCells)ᶜ p.heap (p.heap.store 4128 v) := by
  have hrun : (run (heapStep unlimited 1) (started (fun _ => 0) 4096) [.malloc 8, .malloc 8]).map
      (fun p => (p.live, p.heap.load 4128, p.metadata.map Range.stop)) =
        some ([⟨4136, 8, none⟩, ⟨4128, 8, none⟩], 0, [4128]) := by
    decide +kernel
  obtain ⟨p, hp, heq⟩ := Option.map_eq_some_iff.mp hrun
  simp only [Prod.mk.injEq] at heq
  obtain ⟨hlive, hword, hown⟩ := heq
  have hfirst : ⟨4128, 8, none⟩ ∈ p.live := by simp [hlive]
  have hsecond : ⟨4136, 8, none⟩ ∈ p.live := by simp [hlive]
  refine ⟨p, hp, hsecond, ?_, store_alike hfirst le_rfl le_rfl fun r hr => .inl ?_⟩
  · show p.heap.load 4128 ≠ blockMagic
    rw [hword]
    decide
  · have hstop : r.stop ∈ [4128] := by
      rw [← hown]
      exact List.mem_map_of_mem hr
    exact (List.mem_singleton.mp hstop).le

/-- What is before the block is seen. -/
theorem contents_unseen_two : ∃ p, run (heapStep unlimited 1) (started (fun _ => 0) 4096)
    [.malloc 8, .malloc 8] = some p ∧ ∀ v,
      (SameTreatment unlimited p (p.heap.store 4128 v) 4136 ↔
        SeenAlike p.heap (p.heap.store 4128 v) 4136) := by
  obtain ⟨p, hp, hb, -, halike⟩ := two_blocks
  exact ⟨p, hp, fun v => contents_unseen_iff (by decide) hp (halike v) hb⟩

/-- **Bytes that look like a header**: with `BLOCK_MAGIC` in the first of two blocks, `free` takes the
second one for a large block. -/
theorem contents_seen : ¬ ∀ (supply : Supply) (depth : ℕ) (memory : Cells) (brk : ℕ)
    (calls : List AllocCall) (p : Process) (s' : Allocator) (b : Block), 0 < brk →
      run (heapStep supply depth) (started memory brk) calls = some p →
        Alike (p.userCells)ᶜ p.heap s' → b ∈ p.live → SameTreatment supply p s' b.ptr := by
  intro hall
  obtain ⟨p, hp, hb, hsmall, halike⟩ := two_blocks
  have hsame := hall unlimited 1 (fun _ => 0) 4096 [.malloc 8, .malloc 8] p
    (p.heap.store 4128 blockMagic) ⟨4136, 8, none⟩ (by decide) hp (halike blockMagic) hb
  have hlarge : (p.heap.store 4128 blockMagic).HasMagic 4136 := load_store p.heap 4128 blockMagic
  rw [← freeChoice_large_iff] at hlarge hsmall
  exact hsmall (hsame.free.symm.trans hlarge)

end

end PrismaticOS.Libc
