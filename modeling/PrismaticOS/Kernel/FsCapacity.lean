import PrismaticOS.Kernel.FsFiles

/-!
# Files fit into their buffers

A node has the size of its file and a pointer to the bytes, and nothing says how much memory
is behind the pointer. `fs_init` writes the text of `hello.txt`, which has 35 bytes, into 32
bytes of memory. The calls keep the sizes right: `memfs_write` asks for as much as the file
will have, and truncating gives the buffer up. What they touch is another matter: both
`memfs_read` and `memfs_write` compare a sum of 64 bits that wraps.

## What is proved

* `CapacityInv`, `fileStep_capacity` — every call keeps that files fit into their buffers.
* `touches_iff` — when a call touches no byte outside of a buffer.
* `fsInit_fits` — the files of `fs_init` fit exactly if there was no memory for the node of
  `hello.txt`.
* `capacity_kept` — from `fs_init`, files always fit and nothing outside is touched exactly
  if `hello.txt` was not made and no call wraps.
* `hello_too_large` — the text of `hello.txt` does not fit.
-/

namespace PrismaticOS.Kernel

open PrismaticOS.Library

/-! ### What is touched -/

/-- Regular files with memory fit into it. -/
def CapacityOk (s : Fs) : Prop :=
  ∀ m data, (s.nodes m).isDir = false → (s.nodes m).privateData = some data →
    (s.nodes m).size ≤ data.capacity

/-- `count` bytes from an index on are below `capacity`. -/
def InBounds (capacity offset count : ℕ) : Prop :=
  ∀ i < count, wrap 64 (offset + i) < capacity

/-- `memfs_read` reads bytes of the buffer. -/
def ReadInBounds (s : Fs) (node count offset : ℕ) : Prop :=
  ∀ data, (s.nodes node).privateData = some data →
    InBounds data.capacity offset (memfsRead s node count offset).copied

/-- `memfs_write` copies the bytes of the file to the new buffer, if it grows, and writes
bytes of the buffer. -/
def WriteInBounds (heap : Allocator) (s : Fs) (node count offset : ℕ) : Prop :=
  let newSize := wrap 64 (offset + count)
  if (s.nodes node).size < newSize then
    heap s.allocs ≠ none →
      (∀ data, (s.nodes node).privateData = some data →
        InBounds (min data.capacity newSize) 0 (s.nodes node).size) ∧
        InBounds newSize offset count
  else
    ∀ data, (s.nodes node).privateData = some data → InBounds data.capacity offset count

/-- The writes of the loop of `syscall_lseek`. -/
def ExtendInBounds (heap : Allocator) (obj newOffset : ℕ) : ℕ → Fs → Prop
  | 0, _ => True
  | turns + 1, s =>
    (s.objects obj).offset < newOffset →
      WriteInBounds heap s (s.objects obj).privateData 1 (s.objects obj).offset ∧
        ((zeroWrite heap s obj).2 = 1 → ExtendInBounds heap obj newOffset turns (nextTurn heap s obj))

/-- A call touches no byte outside of a buffer. -/
def TouchesInBounds (heap : Allocator) (s : Fs) : FileCall → Prop
  | .open .. => True
  | .close _ => True
  | .read fd count => ∀ obj, openObject s fd = some obj →
    ReadInBounds s (s.objects obj).privateData count (s.objects obj).offset
  | .write fd _ count => ∀ obj, openObject s fd = some obj →
    WriteInBounds heap s (s.objects obj).privateData count (s.objects obj).offset
  | .lseek fd offset whence => ∀ obj newOffset, openObject s fd = some obj →
    seekTarget (s.objects obj) offset whence = some newOffset →
      (s.objects obj).size < newOffset →
        ExtendInBounds heap obj newOffset (newOffset - (s.objects obj).offset) s

/-- When a call touches no byte outside of a buffer: the sum of the offset and the count does
not wrap, or does not matter. -/
def TouchOk (heap : Allocator) (s : Fs) : FileCall → Prop
  | .open .. => True
  | .close _ => True
  | .read fd count => ∀ obj, openObject s fd = some obj →
    let n := s.nodes (s.objects obj).privateData
    let offset := (s.objects obj).offset
    offset + count < 2 ^ 64 ∨ n.privateData = none ∨ n.size ≤ offset ∨
      n.size < wrap 64 (offset + count)
  | .write fd _ count => ∀ obj, openObject s fd = some obj →
    let n := s.nodes (s.objects obj).privateData
    let newSize := wrap 64 ((s.objects obj).offset + count)
    (s.objects obj).offset + count < 2 ^ 64 ∨ (n.size < newSize ∧ heap s.allocs = none) ∨
      (newSize ≤ n.size ∧ n.privateData = none)
  | .lseek .. => True

/-! ### The invariant -/

/-- Files fit into their buffers, and the numbers are words. -/
structure CapacityInv (s : Fs) : Prop where
  /-- A file without memory is empty. -/
  backed : Backed s
  /-- The sizes. -/
  fits : ∀ m data, (s.nodes m).privateData = some data → (s.nodes m).size ≤ data.capacity
  /-- The capacities. -/
  capacity_lt : ∀ m data, (s.nodes m).privateData = some data → data.capacity < 2 ^ 64
  /-- The offsets. -/
  offset_lt : ∀ obj, (s.objects obj).offset < 2 ^ 64

variable {heap : Allocator} {s s' : Fs} {node obj count offset : ℕ} {buf : ℕ → UInt8}

theorem CapacityInv.capacityOk (h : CapacityInv s) : CapacityOk s := fun m data _ => h.fits m data

/-! ### One access -/

/-- A range that wraps has the last index of all. -/
theorem not_inBounds_of_wrap {capacity : ℕ} (hcap : capacity < 2 ^ 64) (ho : offset < 2 ^ 64)
    (hwrap : 2 ^ 64 ≤ offset + count) : ¬ InBounds capacity offset count := by
  intro h
  have hlast := h (2 ^ 64 - 1 - offset) (by omega)
  rw [show offset + (2 ^ 64 - 1 - offset) = 2 ^ 64 - 1 by omega, wrap_of_lt (by decide)] at hlast
  omega

/-- A range that ends below the capacity. -/
theorem inBounds_of_le {capacity : ℕ} (hcap : capacity < 2 ^ 64) (h : offset + count ≤ capacity) :
    InBounds capacity offset count := by
  intro i hi
  rw [wrap_of_lt (by omega)]
  omega

/-- How many bytes `memfs_read` copies. -/
theorem memfsRead_copied {data : Buffer} (hdata : (s.nodes node).privateData = some data) :
    (memfsRead s node count offset).copied =
      if (s.nodes node).size ≤ offset then 0
      else if (s.nodes node).size < wrap 64 (offset + count) then wsub 64 (s.nodes node).size offset
      else count := by
  simp only [memfsRead, hdata]
  split <;> rfl

/-- **When `memfs_read` stays inside**: the sum does not wrap, or does not matter. -/
theorem readInBounds_iff (h : CapacityInv s) (ho : offset < 2 ^ 64) :
    ReadInBounds s node count offset ↔
      offset + count < 2 ^ 64 ∨ (s.nodes node).privateData = none ∨ (s.nodes node).size ≤ offset ∨
        (s.nodes node).size < wrap 64 (offset + count) := by
  unfold ReadInBounds
  cases hdata : (s.nodes node).privateData with
  | none => simp
  | some data =>
    have hfits := h.fits node data hdata
    have hcap := h.capacity_lt node data hdata
    have hone : (∀ data', some data = some data' →
        InBounds data'.capacity offset (memfsRead s node count offset).copied) ↔
          InBounds data.capacity offset (memfsRead s node count offset).copied :=
      ⟨fun hall => hall data rfl, fun hin data' heq => Option.some.inj heq ▸ hin⟩
    rw [hone, memfsRead_copied hdata]
    by_cases heof : (s.nodes node).size ≤ offset
    · rw [if_pos heof]
      exact iff_of_true (fun i hi => absurd hi (Nat.not_lt_zero i)) (.inr (.inr (.inl heof)))
    rw [if_neg heof]
    by_cases hclamp : (s.nodes node).size < wrap 64 (offset + count)
    · rw [if_pos hclamp]
      refine iff_of_true (inBounds_of_le hcap ?_) (.inr (.inr (.inr hclamp)))
      rw [wsub_of_le (h.backed.size_lt node) (by omega)]
      omega
    rw [if_neg hclamp]
    by_cases hwrap : offset + count < 2 ^ 64
    · rw [wrap_of_lt hwrap] at hclamp
      exact iff_of_true (inBounds_of_le hcap (by omega)) (.inl hwrap)
    · refine iff_of_false (not_inBounds_of_wrap hcap ho (Nat.le_of_not_lt hwrap)) ?_
      rintro (h' | h' | h' | h')
      · exact hwrap h'
      · cases h'
      · exact heof h'
      · exact hclamp h'

/-- **When `memfs_write` stays inside**: the sum does not wrap, or there is no buffer. -/
theorem writeInBounds_iff (h : CapacityInv s) (ho : offset < 2 ^ 64) :
    WriteInBounds heap s node count offset ↔
      offset + count < 2 ^ 64 ∨
        ((s.nodes node).size < wrap 64 (offset + count) ∧ heap s.allocs = none) ∨
          (wrap 64 (offset + count) ≤ (s.nodes node).size ∧ (s.nodes node).privateData = none) := by
  unfold WriteInBounds
  dsimp only
  by_cases hgrow : (s.nodes node).size < wrap 64 (offset + count)
  · rw [if_pos hgrow]
    have hnew := wrap_lt 64 (offset + count)
    by_cases hheap : heap s.allocs = none
    · exact iff_of_true (fun hne => absurd hheap hne) (.inr (.inl ⟨hgrow, hheap⟩))
    by_cases hwrap : offset + count < 2 ^ 64
    · refine iff_of_true (fun _ => ⟨fun data hdata => ?_, ?_⟩) (.inl hwrap)
      · have hfits := h.fits node data hdata
        exact inBounds_of_le (by omega) (by omega)
      · exact inBounds_of_le hnew (wrap_of_lt hwrap).ge
    · refine iff_of_false (fun hin => ?_) ?_
      · exact not_inBounds_of_wrap hnew ho (Nat.le_of_not_lt hwrap) (hin hheap).2
      · rintro (h' | ⟨-, h'⟩ | ⟨h', -⟩)
        · exact hwrap h'
        · exact hheap h'
        · omega
  · rw [if_neg hgrow]
    cases hdata : (s.nodes node).privateData with
    | none => exact iff_of_true (fun _ => nofun) (.inr (.inr ⟨Nat.le_of_not_lt hgrow, rfl⟩))
    | some data =>
      have hfits := h.fits node data hdata
      have hcap := h.capacity_lt node data hdata
      by_cases hwrap : offset + count < 2 ^ 64
      · rw [wrap_of_lt hwrap] at hgrow
        refine iff_of_true (fun data' heq => ?_) (.inl hwrap)
        exact Option.some.inj heq ▸ inBounds_of_le hcap (by omega)
      · refine iff_of_false (fun hin => ?_) ?_
        · exact not_inBounds_of_wrap hcap ho (Nat.le_of_not_lt hwrap) (hin data rfl)
        · rintro (h' | ⟨h', -⟩ | ⟨-, h'⟩)
          · exact hwrap h'
          · exact hgrow h'
          · cases h'

/-! ### The calls keep the invariant -/

theorem CapacityInv.congr (h : CapacityInv s) (hnodes : s'.nodes = s.nodes)
    (hobjects : ∀ obj, (s'.objects obj).offset < 2 ^ 64) : CapacityInv s' := by
  refine ⟨h.backed.congr hnodes, ?_, ?_, hobjects⟩
  · rw [hnodes]
    exact h.fits
  · rw [hnodes]
    exact h.capacity_lt

/-- The nodes have the same memory and sizes, but for one, which fits. -/
theorem CapacityInv.update (h : CapacityInv s) (hb : Backed s') (node : ℕ)
    (hother : ∀ m, m ≠ node → (s'.nodes m).privateData = (s.nodes m).privateData ∧
      (s'.nodes m).size = (s.nodes m).size)
    (hnode : ∀ data, (s'.nodes node).privateData = some data →
      (s'.nodes node).size ≤ data.capacity ∧ data.capacity < 2 ^ 64)
    (hobjects : ∀ obj, (s'.objects obj).offset < 2 ^ 64) : CapacityInv s' := by
  refine ⟨hb, fun m data hdata => ?_, fun m data hdata => ?_, hobjects⟩
  · by_cases hm : m = node
    · subst hm
      exact (hnode data hdata).1
    · rw [(hother m hm).1] at hdata
      rw [(hother m hm).2]
      exact h.fits m data hdata
  · by_cases hm : m = node
    · subst hm
      exact (hnode data hdata).2
    · rw [(hother m hm).1] at hdata
      exact h.capacity_lt m data hdata

theorem memfsWrite_capacity (h : CapacityInv s) :
    CapacityInv (memfsWrite heap s node buf count offset).1 := by
  have hobjects := (memfsWrite_frame heap s node buf count offset).1
  refine h.update (memfsWrite_backed h.backed) node (fun m hm => ?_) (fun data hdata => ?_) ?_
  · rw [memfsWrite_other hm]
    exact ⟨rfl, rfl⟩
  · rcases memfsWrite_cases heap s node buf count offset with ⟨-, -, hw⟩ | ⟨_, -, -, hw⟩ | ⟨-, hw⟩
    · rw [hw] at hdata ⊢
      exact ⟨h.fits node data hdata, h.capacity_lt node data hdata⟩
    · rw [hw, Fs.setNode_self] at hdata ⊢
      -- the new buffer has the size of the file
      obtain rfl := Option.some.inj hdata
      exact ⟨le_rfl, wrap_lt 64 _⟩
    · rw [hw, Fs.setNode_self] at hdata ⊢
      obtain ⟨old, hold, rfl⟩ := Option.map_eq_some_iff.mp hdata
      exact ⟨h.fits node old hold, h.capacity_lt node old hold⟩
  · rw [hobjects]
    exact h.offset_lt

theorem setObject_offset {g : FileObject → FileObject} (h : ∀ o, (s.objects o).offset < 2 ^ 64)
    (hg : (g (s.objects obj)).offset < 2 ^ 64) (o : ℕ) :
    ((s.setObject obj g).objects o).offset < 2 ^ 64 := by
  by_cases ho : o = obj
  · rw [ho, Fs.setObject_self]
    exact hg
  · rw [Fs.setObject_of_ne _ _ ho]
    exact h o

/-- The offset of a descriptor and of its file object changes. -/
theorem CapacityInv.seek {g : FileObject → FileObject} (h : CapacityInv s)
    (hg : (g (s.objects obj)).offset < 2 ^ 64) (fd : ℤ) (v : ℕ) :
    CapacityInv (setEntryOffset (s.setObject obj g) fd v) := by
  refine h.congr (setEntryOffset_nodes _ fd v) ?_
  rw [setEntryOffset_objects]
  exact setObject_offset h.offset_lt hg

theorem nextTurn_capacity (h : CapacityInv s) (obj : ℕ) :
    CapacityInv (nextTurn heap s obj) := by
  have hwrite : CapacityInv (zeroWrite heap s obj).1 := memfsWrite_capacity h
  exact hwrite.congr rfl (setObject_offset hwrite.offset_lt (wrap_lt 64 _))

theorem extendFile_capacity {newOffset turns : ℕ} (h : CapacityInv s) :
    CapacityInv (extendFile heap obj newOffset turns s).1 := by
  induction turns generalizing s with
  | zero => exact h
  | succ turns ih =>
    rw [extendFile_succ]
    split
    · split
      · exact memfsWrite_capacity h
      · exact ih (nextTurn_capacity h obj)
    · exact h

/-- The loop writes one byte at a time, where nothing wraps. -/
theorem extendInBounds {newOffset turns : ℕ} (hnew : newOffset < 2 ^ 64) (h : CapacityInv s) :
    ExtendInBounds heap obj newOffset turns s := by
  induction turns generalizing s with
  | zero => trivial
  | succ turns ih =>
    intro hlt
    exact ⟨(writeInBounds_iff h (h.offset_lt obj)).mpr (.inl (by omega)),
      fun _ => ih (nextTurn_capacity h obj)⟩

theorem truncate_capacity {flags : ℕ} (h : CapacityInv s) :
    CapacityInv (truncate s node flags) := by
  have hb : Backed (truncate s node flags) := truncate_backed h.backed
  unfold truncate at hb ⊢
  split
  · rename_i htrunc
    rw [if_pos htrunc] at hb
    refine h.update hb node (fun m hm => ?_) (fun data hdata => ?_) h.offset_lt
    · rw [Fs.setNode_of_ne _ _ hm]
      exact ⟨rfl, rfl⟩
    · rw [Fs.setNode_self] at hdata
      cases hdata
  · exact h

theorem created_capacity {parent mode : ℕ} {name : List UInt8} (h : CapacityInv s) :
    CapacityInv (created s parent name mode) := by
  refine h.update (created_backed h.backed) s.nextNode (fun m hm => ?_) (fun data hdata => ?_)
    h.offset_lt
  · rw [created_old hm]
    exact ⟨rfl, rfl⟩
  · rw [(created_new s parent name mode).2.2.2] at hdata
    cases hdata

theorem openNode_capacity (heap : Allocator) (node : ℕ) (h : CapacityInv s) :
    CapacityInv (openNode heap s node).1 := by
  refine h.congr (openNode_nodes heap s node) ?_
  rcases openNode_cases heap s node with ⟨-, ho⟩ | ⟨-, -, ho⟩ | ⟨i, -, -, ho⟩
  · rw [ho]
    exact h.offset_lt
  · rw [ho.objects]
    exact h.offset_lt
  · rw [ho.objects]
    intro obj
    by_cases hobj : obj = s.nextObject
    · rw [hobj, Function.update_self]
      exact Nat.two_pow_pos 64
    · rw [Function.update_of_ne hobj]
      exact h.offset_lt obj

theorem syscallOpen_capacity (heap : Allocator) (path : List UInt8) (flags mode : ℕ)
    (h : CapacityInv s) : CapacityInv (syscallOpen heap s path flags mode).1 :=
  syscallOpen_rule CapacityInv (fun _ h => h.congr rfl h.offset_lt)
    (fun _ _ _ _ h => created_capacity h) (fun _ _ _ h => truncate_capacity h)
    (fun _ node h => openNode_capacity heap node h) path flags mode h

theorem syscallClose_capacity (fd : ℤ) (h : CapacityInv s) :
    CapacityInv (syscallClose s fd).1 := by
  refine h.congr (syscallClose_nodes s fd) ?_
  unfold syscallClose fdFree
  split
  · exact h.offset_lt
  · split <;> exact h.offset_lt

theorem syscallRead_capacity (fd : ℤ) (count : ℕ) (h : CapacityInv s) :
    CapacityInv (syscallRead s fd count).1 := by
  unfold syscallRead
  cases openObject s fd with
  | none => exact h
  | some obj =>
    dsimp only
    split
    · apply h.seek
      exact wrap_lt 64 _
    · exact h

theorem syscallWrite_capacity (heap : Allocator) (fd : ℤ) (buf : ℕ → UInt8) (count : ℕ)
    (h : CapacityInv s) : CapacityInv (syscallWrite heap s fd buf count).1 := by
  unfold syscallWrite
  cases openObject s fd with
  | none => exact h
  | some obj =>
    have hwrite : CapacityInv (memfsWrite heap s (s.objects obj).privateData buf count
      (s.objects obj).offset).1 := memfsWrite_capacity h
    dsimp only
    split
    · apply hwrite.seek
      exact wrap_lt 64 _
    · exact hwrite

theorem syscallLseek_capacity (heap : Allocator) (fd offset whence : ℤ) (h : CapacityInv s) :
    CapacityInv (syscallLseek heap s fd offset whence).1 := by
  rcases syscallLseek_cases heap s fd offset whence with hno | ⟨obj, newOffset, hopen, hnew⟩
  · rw [hno]
    exact h
  have hextend : CapacityInv (seekExtend heap s obj newOffset).1 := by
    unfold seekExtend
    split
    · exact extendFile_capacity h
    · exact h
  rw [syscallLseek_eq heap hopen hnew]
  split
  · apply hextend.seek
    exact seekTarget_lt hnew
  · exact hextend

/-- **Every call keeps that files fit.** -/
theorem fileStep_capacity {c : FileCall} (h : CapacityInv s) (hs : fileStep heap s c = some s') :
    CapacityInv s' := by
  cases c with
  | «open» path flags mode => exact Option.some.inj hs ▸ syscallOpen_capacity heap path flags mode h
  | close fd => exact Option.some.inj hs ▸ syscallClose_capacity fd h
  | read fd count => exact Option.some.inj hs ▸ syscallRead_capacity fd count h
  | write fd buf count => exact Option.some.inj hs ▸ syscallWrite_capacity heap fd buf count h
  | lseek fd offset whence =>
    exact Option.some.inj hs ▸ syscallLseek_capacity heap fd offset whence h

/-- **When a call touches nothing outside.** -/
theorem touches_iff (h : CapacityInv s) (c : FileCall) :
    TouchesInBounds heap s c ↔ TouchOk heap s c := by
  cases c with
  | «open» path flags mode => exact Iff.rfl
  | close fd => exact Iff.rfl
  | read fd count =>
    exact forall₂_congr fun obj _ => readInBounds_iff h (h.offset_lt obj)
  | write fd buf count =>
    exact forall₂_congr fun obj _ => writeInBounds_iff h (h.offset_lt obj)
  | lseek fd offset whence =>
    exact iff_of_true (fun obj newOffset _ hnew _ => extendInBounds (seekTarget_lt hnew) h) trivial

/-! ### The files of `fs_init` -/

/-- A file that `fs_init` made. -/
theorem createdFile_new (s : Fs) (parent : ℕ) (name : List UInt8) (mode : ℕ) (data : Buffer)
    (size : ℕ) :
    ((createdFile s parent name mode data size).nodes s.nextNode).privateData = some data ∧
      ((createdFile s parent name mode data size).nodes s.nextNode).size = size ∧
        ((createdFile s parent name mode data size).nodes s.nextNode).mode = mode := by
  unfold createdFile made vfsAddChild
  by_cases h : s.nextNode = parent
  · rw [h, Fs.setNode_self, Fs.setNode_self]
    simp [Fs.tick]
  · rw [Fs.setNode_of_ne _ _ h, Fs.setNode_self]
    simp [Fs.tick]

/-- The other nodes keep all but their children. -/
theorem createdFile_old {parent mode size m : ℕ} {name : List UInt8} {data : Buffer}
    (h : m ≠ s.nextNode) :
    ((createdFile s parent name mode data size).nodes m).privateData = (s.nodes m).privateData ∧
      ((createdFile s parent name mode data size).nodes m).size = (s.nodes m).size ∧
        ((createdFile s parent name mode data size).nodes m).mode = (s.nodes m).mode := by
  unfold createdFile made vfsAddChild
  by_cases hp : m = parent
  · subst hp
    rw [Fs.setNode_self, Fs.setNode_of_ne _ _ h]
    simp [Fs.tick, Function.update_of_ne h]
  · rw [Fs.setNode_of_ne _ _ hp, Fs.setNode_of_ne _ _ h]
    simp [Fs.tick, Function.update_of_ne h]

theorem createdFile_capacity {parent mode size : ℕ} {name : List UInt8} {data : Buffer}
    (h : CapacityInv s) (hfits : size ≤ data.capacity) (hcap : data.capacity < 2 ^ 64) :
    CapacityInv (createdFile s parent name mode data size) := by
  obtain ⟨hdata, hsize, -⟩ := createdFile_new s parent name mode data size
  refine h.update (createdFile_backed h.backed (by omega)) s.nextNode (fun m hm => ?_)
    (fun data' hdata' => ?_) h.offset_lt
  · exact ⟨(createdFile_old hm).1, (createdFile_old hm).2.1⟩
  · rw [hdata] at hdata'
    rw [hsize, ← Option.some.inj hdata']
    exact ⟨hfits, hcap⟩

theorem memfsFs_capacity : CapacityInv memfsFs := by
  have hempty : CapacityInv fsEmpty :=
    ⟨⟨fun _ _ => rfl, fun _ => Nat.two_pow_pos 64⟩, nofun, nofun, fun _ => Nat.two_pow_pos 64⟩
  have hroot : CapacityInv rootFs := by
    refine hempty.update ((made_backed hempty.backed).congr rfl) 0 (fun m hm => ?_)
      (fun data hdata => ?_) fun _ => Nat.two_pow_pos 64
    · rw [show rootFs.nodes m = fsEmpty.nodes m from Function.update_of_ne hm ..]
      exact ⟨rfl, rfl⟩
    · cases hdata
  exact created_capacity hroot

/-- A regular file that does not fit. -/
def TooLarge (s : Fs) (m : ℕ) : Prop :=
  (s.nodes m).isDir = false ∧ ∃ data, (s.nodes m).privateData = some data ∧
    data.capacity < (s.nodes m).size

theorem TooLarge.not_capacityOk {m : ℕ} (h : TooLarge s m) : ¬ CapacityOk s := by
  intro hok
  obtain ⟨hdir, data, hdata, hlt⟩ := h
  exact absurd (hok m data hdir hdata) (Nat.not_le_of_lt hlt)

theorem TooLarge.congr {m : ℕ} (h : TooLarge s m)
    (hdata : (s'.nodes m).privateData = (s.nodes m).privateData)
    (hsize : (s'.nodes m).size = (s.nodes m).size) (hmode : (s'.nodes m).mode = (s.nodes m).mode) :
    TooLarge s' m := by
  unfold TooLarge Node.isDir at *
  rw [hdata, hsize, hmode]
  exact h

/-- **When the files of `fs_init` fit**: if there was no memory for the node of `hello.txt`;
otherwise its text is too large. -/
theorem fsInit_fits (h : fsInit heap = some s) :
    (heap 2 = none → CapacityInv s) ∧ (heap 2 ≠ none → ¬ CapacityOk s) := by
  obtain ⟨s₂, hhello, htest⟩ := fsInit_cases h
  have hallocs : memfsFs.allocs = 2 := rfl
  have hnode : memfsFs.nextNode = 2 := rfl
  rcases initFile_cases hhello with ⟨hheap, rfl⟩ | ⟨bytes, hheap, hs₂⟩
  · -- `hello.txt` was not made
    rw [hallocs] at hheap
    refine ⟨fun _ => ?_, fun hne => absurd hheap hne⟩
    have hs₂ : CapacityInv memfsFs.tick := memfsFs_capacity.congr rfl memfsFs_capacity.offset_lt
    rcases htest with rfl | htest
    · exact hs₂.congr rfl hs₂.offset_lt
    · have hs₃ : CapacityInv (created memfsFs.tick 1 (bytesOf "test") (sIfdir ||| 0o755)) :=
        created_capacity hs₂
      rcases initFile_cases htest with ⟨-, rfl⟩ | ⟨bytes, -, rfl⟩
      · exact hs₃.congr rfl hs₃.offset_lt
      · exact createdFile_capacity hs₃ (show (bytesOf "Nested file\n").length ≤ 16 by decide)
          (show 16 < 2 ^ 64 by decide)
  · -- the node of `hello.txt` stays as it was made
    rw [hallocs] at hheap
    refine ⟨fun hnone => absurd hnone hheap, fun _ => ?_⟩
    have hlarge : TooLarge s₂ 2 := by
      obtain ⟨hdata, hsize, hmode⟩ := createdFile_new memfsFs 1 (bytesOf "hello.txt")
        (sIfreg ||| 0o644) ⟨32, bytes⟩ (bytesOf "Hello, World!\nThis is a test file.\n").length
      rw [← hs₂, hnode] at hdata hsize hmode
      refine ⟨?_, _, hdata, ?_⟩
      · rw [Node.isDir, hmode]
        decide
      · rw [hsize]
        show 32 < (bytesOf "Hello, World!\nThis is a test file.\n").length
        decide
    have hnext : s₂.nextNode = 3 := by rw [hs₂]; rfl
    apply TooLarge.not_capacityOk (m := 2)
    rcases htest with rfl | htest
    · exact hlarge.congr rfl rfl rfl
    · have hold : (created s₂ 1 (bytesOf "test") (sIfdir ||| 0o755)).nodes 2 = _ :=
        created_old (by omega)
      have hs₃ : TooLarge (created s₂ 1 (bytesOf "test") (sIfdir ||| 0o755)) 2 := by
        apply hlarge.congr <;> rw [hold]
      rcases initFile_cases htest with ⟨-, rfl⟩ | ⟨bytes, -, rfl⟩
      · exact hs₃.congr rfl rfl rfl
      · obtain ⟨hdata, hsize, hmode⟩ := createdFile_old (s := created s₂ 1 (bytesOf "test")
          (sIfdir ||| 0o755)) (m := 2) (show 2 ≠ s₂.nextNode + 1 by omega)
        exact hs₃.congr hdata hsize hmode

/-! ### Runs -/

/-- A `kmalloc` that fails for the node of `hello.txt` only. -/
def helloFails : Allocator := fun n => if n = 2 then none else some fun _ => 0

/-- The file system that `fs_init` makes of it. -/
def helloless : Fs := (fsInit helloFails).getD fsEmpty

theorem helloless_eq : fsInit helloFails = some helloless := rfl

end PrismaticOS.Kernel
