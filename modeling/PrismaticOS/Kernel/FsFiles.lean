import PrismaticOS.Kernel.Fs

/-!
# What the file calls do

Runs of `syscall_open`, `syscall_close`, `syscall_read`, `syscall_write` and
`syscall_lseek`, and what each of them changes: the table of descriptors, the file
objects, and the sizes and contents of the nodes.

## What is proved

* `memfsWrite_cases` — a write grows the file, or fails to, or stays inside it.
* `extendFile_bytes` — the loop of `syscall_lseek` fills the file with zeros from the
  offset of the descriptor on; `extendFile_size_lt` — and makes the file larger, if there
  is memory.
* `syscallOpen_cases`, `openNode_cases` — what opening a file finds, makes and changes.
* `syscallOpen_rule` — what the parts of `syscall_open` keep is kept by the call.
* `backed_always` — from `fs_init` on, in every state a run reaches, a file without memory
  is empty.
-/

namespace PrismaticOS.Kernel

open PrismaticOS.Library

/-- A system call on files. -/
inductive FileCall where
  /-- `syscall_open(path, flags, mode)`. -/
  | open (path : List UInt8) (flags mode : ℕ)
  /-- `syscall_close(fd)`. -/
  | close (fd : ℤ)
  /-- `syscall_read(fd, .., count)`. -/
  | read (fd : ℤ) (count : ℕ)
  /-- `syscall_write(fd, buf, count)`. -/
  | write (fd : ℤ) (buf : ℕ → UInt8) (count : ℕ)
  /-- `syscall_lseek(fd, offset, whence)`. -/
  | lseek (fd offset whence : ℤ)

/-- A call. -/
def fileStep (heap : Allocator) (s : Fs) : FileCall → Option Fs
  | .open path flags mode => some (syscallOpen heap s path flags mode).1
  | .close fd => some (syscallClose s fd).1
  | .read fd count => some (syscallRead s fd count).1
  | .write fd buf count => some (syscallWrite heap s fd buf count).1
  | .lseek fd offset whence => some (syscallLseek heap s fd offset whence).1

variable {heap : Allocator} {s : Fs} {node obj count offset : ℕ} {buf : ℕ → UInt8}

namespace Fs

variable (s) (i : ℕ) (f : Node → Node) (g : FileObject → FileObject)

theorem setNode_nodes : (s.setNode i f).nodes = Function.update s.nodes i (f (s.nodes i)) := rfl

theorem setNode_self : (s.setNode i f).nodes i = f (s.nodes i) := by
  rw [setNode_nodes, Function.update_self]

variable {i} in
theorem setNode_of_ne {j : ℕ} (h : j ≠ i) : (s.setNode i f).nodes j = s.nodes j := by
  rw [setNode_nodes, Function.update_of_ne h]

theorem setObject_self : (s.setObject i g).objects i = g (s.objects i) :=
  Function.update_self ..

variable {i} in
theorem setObject_of_ne {j : ℕ} (h : j ≠ i) : (s.setObject i g).objects j = s.objects j :=
  Function.update_of_ne h ..

end Fs

/-! ### A write -/

/-- The buffer of a file after a write. -/
def written (n : Node) (newSize : ℕ) (memory : ℕ → UInt8) (offset count : ℕ) (buf : ℕ → UInt8) :
    Node :=
  { n with privateData := some ((growBuffer n newSize memory).store offset count buf)
           size := newSize }

/-- A write grows the file, or fails to, or stays inside it. -/
theorem memfsWrite_cases (heap : Allocator) (s : Fs) (node : ℕ) (buf : ℕ → UInt8)
    (count offset : ℕ) :
    ((s.nodes node).size < wrap 64 (offset + count) ∧ heap s.allocs = none ∧
        memfsWrite heap s node buf count offset = (s.tick, -1)) ∨
      (∃ memory, (s.nodes node).size < wrap 64 (offset + count) ∧ heap s.allocs = some memory ∧
        memfsWrite heap s node buf count offset =
          (s.tick.setNode node fun n => written n (wrap 64 (offset + count)) memory offset count buf,
            toSigned 32 count)) ∨
      (wrap 64 (offset + count) ≤ (s.nodes node).size ∧
        memfsWrite heap s node buf count offset =
          (s.setNode node fun n =>
            { n with privateData := n.privateData.map (·.store offset count buf) },
            toSigned 32 count)) := by
  unfold memfsWrite
  by_cases hlt : (s.nodes node).size < wrap 64 (offset + count)
  · cases hheap : heap s.allocs with
    | none => exact .inl ⟨hlt, rfl, by simp only [if_pos hlt]⟩
    | some memory =>
      exact .inr (.inl ⟨memory, hlt, rfl, by simp only [if_pos hlt]; rfl⟩)
  · exact .inr (.inr ⟨Nat.le_of_not_lt hlt, if_neg hlt⟩)

/-- A write changes nodes only. -/
theorem memfsWrite_frame (heap : Allocator) (s : Fs) (node : ℕ) (buf : ℕ → UInt8)
    (count offset : ℕ) :
    (memfsWrite heap s node buf count offset).1.objects = s.objects ∧
      (memfsWrite heap s node buf count offset).1.fdTable = s.fdTable ∧
        (memfsWrite heap s node buf count offset).1.nextObject = s.nextObject ∧
          (memfsWrite heap s node buf count offset).1.nextNode = s.nextNode ∧
            (memfsWrite heap s node buf count offset).1.vfsRoot = s.vfsRoot := by
  rcases memfsWrite_cases heap s node buf count offset with ⟨-, -, h⟩ | ⟨_, -, -, h⟩ | ⟨-, h⟩
  all_goals
    rw [h]
    exact ⟨rfl, rfl, rfl, rfl, rfl⟩

/-- Another file is not written. -/
theorem memfsWrite_other {m : ℕ} (h : m ≠ node) :
    (memfsWrite heap s node buf count offset).1.nodes m = s.nodes m := by
  rcases memfsWrite_cases heap s node buf count offset with ⟨-, -, hw⟩ | ⟨_, -, -, hw⟩ | ⟨-, hw⟩
  · rw [hw]
    rfl
  · rw [hw]
    simp only [Fs.setNode_of_ne _ _ h]
    rfl
  · rw [hw]
    simp only [Fs.setNode_of_ne _ _ h]

/-- A write keeps names, types and children. -/
theorem memfsWrite_tree (m : ℕ) :
    ((memfsWrite heap s node buf count offset).1.nodes m).name = (s.nodes m).name ∧
      ((memfsWrite heap s node buf count offset).1.nodes m).mode = (s.nodes m).mode ∧
        ((memfsWrite heap s node buf count offset).1.nodes m).children = (s.nodes m).children := by
  by_cases h : m = node
  · subst h
    rcases memfsWrite_cases heap s m buf count offset with ⟨-, -, hw⟩ | ⟨_, -, -, hw⟩ | ⟨-, hw⟩
    · rw [hw]
      exact ⟨rfl, rfl, rfl⟩
    · rw [hw]
      simp only [Fs.setNode_self]
      exact ⟨rfl, rfl, rfl⟩
    · rw [hw]
      simp only [Fs.setNode_self]
      exact ⟨trivial, trivial, trivial⟩
  · rw [memfsWrite_other h]
    exact ⟨rfl, rfl, rfl⟩

/-- The sizes are words, and a file without memory is empty. -/
structure Backed (s : Fs) : Prop where
  /-- No memory, no bytes. -/
  empty : ∀ m, (s.nodes m).privateData = none → (s.nodes m).size = 0
  /-- The size is a word. -/
  size_lt : ∀ m, (s.nodes m).size < 2 ^ 64

theorem Backed.congr {s' : Fs} (hb : Backed s) (h : s'.nodes = s.nodes) : Backed s' := by
  refine ⟨?_, ?_⟩
  · rw [h]
    exact hb.empty
  · rw [h]
    exact hb.size_lt

/-- One node changes, and is backed again. -/
theorem Backed.update {s' : Fs} {n : Node} (hb : Backed s)
    (h : s'.nodes = Function.update s.nodes node n) (he : n.privateData = none → n.size = 0)
    (hlt : n.size < 2 ^ 64) : Backed s' := by
  refine ⟨fun m => ?_, fun m => ?_⟩
  · rw [h]
    by_cases hm : m = node
    · rw [hm, Function.update_self]
      exact he
    · rw [Function.update_of_ne hm]
      exact hb.empty m
  · rw [h]
    by_cases hm : m = node
    · rw [hm, Function.update_self]
      exact hlt
    · rw [Function.update_of_ne hm]
      exact hb.size_lt m

theorem memfsWrite_backed (hb : Backed s) : Backed (memfsWrite heap s node buf count offset).1 := by
  have htick : Backed s.tick := hb.congr rfl
  rcases memfsWrite_cases heap s node buf count offset with ⟨-, -, hw⟩ | ⟨_, -, -, hw⟩ | ⟨-, hw⟩
  · rw [hw]
    exact htick
  · rw [hw]
    exact htick.update rfl nofun (wrap_lt 64 _)
  · rw [hw]
    exact hb.update rfl (fun h => hb.empty node (Option.map_eq_none_iff.mp h)) (hb.size_lt node)

/-- The size of a file after a write. -/
theorem memfsWrite_size (heap : Allocator) (s : Fs) (node : ℕ) (buf : ℕ → UInt8)
    (count offset : ℕ) :
    ((memfsWrite heap s node buf count offset).1.nodes node).size =
      if heap s.allocs = none then (s.nodes node).size
      else max (s.nodes node).size (wrap 64 (offset + count)) := by
  rcases memfsWrite_cases heap s node buf count offset with
    ⟨-, hheap, hw⟩ | ⟨_, hlt, hheap, hw⟩ | ⟨hle, hw⟩
  · rw [hw, if_pos hheap]
    rfl
  · rw [hw, hheap, if_neg (by nofun), Nat.max_eq_right hlt.le]
    simp only [Fs.setNode_self, written]
  · rw [hw]
    simp only [Fs.setNode_self]
    rw [Nat.max_eq_left hle, ite_self]

/-! ### The bytes of a file -/

/-- A byte of a file, if it has memory. -/
def byteAt (s : Fs) (m i : ℕ) : Option UInt8 := (s.nodes m).privateData.map (·.bytes i)

/-- A store of one byte. -/
theorem store_one (b : Buffer) {i offset : ℕ} (hi : i < 2 ^ 64) (ho : offset < 2 ^ 64) :
    (b.store offset 1 fun _ => 0).bytes i = if i = offset then 0 else b.bytes i := by
  have hiff : wsub 64 i offset < 1 ↔ i = offset := by
    unfold wsub
    rw [Nat.mod_eq_of_lt ho]
    omega
  show (if i < 2 ^ 64 ∧ wsub 64 i offset < 1 then (0 : UInt8) else b.bytes i) = _
  by_cases h : i = offset
  · rw [if_pos ⟨hi, hiff.mpr h⟩, if_pos h]
  · rw [if_neg fun hc => h (hiff.mp hc.2), if_neg h]

/-- Writing one zero: what was in the file stays but for one byte. -/
theorem memfsWrite_zero (hb : Backed s) (ho : offset + 1 < 2 ^ 64) (m i : ℕ)
    (hi : i < (s.nodes m).size) :
    byteAt (memfsWrite heap s node (fun _ => 0) 1 offset).1 m i =
      if m = node ∧ i = offset then some 0 else byteAt s m i := by
  by_cases hm : m = node
  swap
  · rw [if_neg fun h => hm h.1]
    unfold byteAt
    rw [memfsWrite_other hm]
  subst hm
  simp only [true_and]
  have hi64 : i < 2 ^ 64 := hi.trans (hb.size_lt m)
  have ho64 : offset < 2 ^ 64 := Nat.lt_of_succ_lt ho
  -- the file has memory, since it has a byte
  obtain ⟨b, hdata⟩ : ∃ b, (s.nodes m).privateData = some b := by
    cases hdata : (s.nodes m).privateData with
    | none =>
      rw [hb.empty m hdata] at hi
      exact absurd hi (Nat.not_lt_zero i)
    | some b => exact ⟨b, rfl⟩
  unfold byteAt
  rcases memfsWrite_cases heap s m (fun _ => 0) 1 offset with
    ⟨hlt, -, hw⟩ | ⟨memory, hlt, -, hw⟩ | ⟨-, hw⟩
  · rw [wrap_of_lt ho] at hlt
    rw [hw, if_neg (by omega)]
    rfl
  · rw [wrap_of_lt ho] at hlt
    rw [hw, if_neg (by omega)]
    simp only [Fs.setNode_self, written, Option.map_some, store_one _ hi64 ho64]
    rw [if_neg (by omega), hdata]
    show some ((growBuffer (s.nodes m) _ memory).bytes i) = _
    unfold growBuffer
    rw [hdata]
    simp only [if_pos hi, Option.map_some]
  · rw [hw]
    simp only [Fs.setNode_self, hdata, Option.map_some, store_one _ hi64 ho64]
    split <;> rfl

/-! ### The loop of `syscall_lseek` -/

/-- The write of a turn of the loop. -/
def zeroWrite (heap : Allocator) (s : Fs) (obj : ℕ) : Fs × ℤ :=
  memfsWrite heap s (s.objects obj).privateData (fun _ => 0) 1 (s.objects obj).offset

/-- The state after a turn of the loop. -/
def nextTurn (heap : Allocator) (s : Fs) (obj : ℕ) : Fs :=
  (zeroWrite heap s obj).1.setObject obj fun o => { o with offset := wrap 64 (o.offset + 1) }

/-- A turn of the loop: the end is reached, the write fails, or the loop goes on. -/
theorem extendFile_succ (heap : Allocator) (obj newOffset turns : ℕ) (s : Fs) :
    extendFile heap obj newOffset (turns + 1) s =
      if (s.objects obj).offset < newOffset then
        if (zeroWrite heap s obj).2 ≠ 1 then ((zeroWrite heap s obj).1, false)
        else extendFile heap obj newOffset turns (nextTurn heap s obj)
      else (s, true) := rfl

/-- What a turn leaves of the file objects. -/
theorem nextTurn_objects (heap : Allocator) (ho : (s.objects obj).offset + 1 < 2 ^ 64) :
    (nextTurn heap s obj).objects obj =
        { s.objects obj with offset := (s.objects obj).offset + 1 } ∧
      ∀ o, o ≠ obj → (nextTurn heap s obj).objects o = s.objects o := by
  have hobjects : (zeroWrite heap s obj).1.objects = s.objects := (memfsWrite_frame ..).1
  unfold nextTurn
  rw [Fs.setObject_self, hobjects, wrap_of_lt ho]
  refine ⟨rfl, fun o h => ?_⟩
  rw [Fs.setObject_of_ne _ _ h, hobjects]

/-- Everything but nodes and the offset of one file object is the same. -/
structure SameButFile (s' s : Fs) (obj : ℕ) : Prop where
  /-- The table of descriptors. -/
  fdTable : s'.fdTable = s.fdTable
  /-- How many file objects there are. -/
  nextObject : s'.nextObject = s.nextObject
  /-- How many nodes there are. -/
  nextNode : s'.nextNode = s.nextNode
  /-- The root. -/
  vfsRoot : s'.vfsRoot = s.vfsRoot
  /-- The other file objects. -/
  other : ∀ o, o ≠ obj → s'.objects o = s.objects o
  /-- The size of the file object. -/
  size : (s'.objects obj).size = (s.objects obj).size
  /-- The node of the file object. -/
  privateData : (s'.objects obj).privateData = (s.objects obj).privateData
  /-- The other nodes. -/
  nodes : ∀ m, m ≠ (s.objects obj).privateData → s'.nodes m = s.nodes m
  /-- The children of the nodes. -/
  children : ∀ m, (s'.nodes m).children = (s.nodes m).children

theorem SameButFile.refl (s : Fs) (obj : ℕ) : SameButFile s s obj :=
  ⟨rfl, rfl, rfl, rfl, fun _ _ => rfl, rfl, rfl, fun _ _ => rfl, fun _ => rfl⟩

theorem SameButFile.trans {s₁ s₂ s₃ : Fs} (h : SameButFile s₁ s₂ obj) (h' : SameButFile s₂ s₃ obj) :
    SameButFile s₁ s₃ obj :=
  ⟨h.fdTable.trans h'.fdTable, h.nextObject.trans h'.nextObject, h.nextNode.trans h'.nextNode,
    h.vfsRoot.trans h'.vfsRoot, fun o ho => (h.other o ho).trans (h'.other o ho),
    h.size.trans h'.size, h.privateData.trans h'.privateData,
    fun m hm => (h.nodes m (by rw [h'.privateData]; exact hm)).trans (h'.nodes m hm),
    fun m => (h.children m).trans (h'.children m)⟩

theorem sameButFile_write : SameButFile (zeroWrite heap s obj).1 s obj := by
  obtain ⟨hobjects, hfd, hobj, hnode, hroot⟩ :=
    memfsWrite_frame heap s (s.objects obj).privateData (fun _ => 0) 1 (s.objects obj).offset
  exact ⟨hfd, hobj, hnode, hroot, fun o _ => congrFun hobjects o,
    congrArg FileObject.size (congrFun hobjects obj),
    congrArg FileObject.privateData (congrFun hobjects obj), fun _ hm => memfsWrite_other hm,
    fun m => (memfsWrite_tree m).2.2⟩

theorem sameButFile_setObject {g : FileObject → FileObject} (h₁ : ∀ o, (g o).size = o.size)
    (h₂ : ∀ o, (g o).privateData = o.privateData) : SameButFile (s.setObject obj g) s obj :=
  ⟨rfl, rfl, rfl, rfl, fun _ h => Fs.setObject_of_ne s g h, by rw [Fs.setObject_self, h₁],
    by rw [Fs.setObject_self, h₂], fun _ _ => rfl, fun _ => rfl⟩

theorem sameButFile_nextTurn (heap : Allocator) (s : Fs) (obj : ℕ) : SameButFile (nextTurn heap s obj) s obj := by
  unfold nextTurn
  refine SameButFile.trans (sameButFile_setObject ?_ ?_) sameButFile_write
  all_goals exact fun _ => rfl

theorem extendFile_same (heap : Allocator) (obj newOffset turns : ℕ) (s : Fs) :
    SameButFile (extendFile heap obj newOffset turns s).1 s obj := by
  induction turns generalizing s with
  | zero => exact .refl s obj
  | succ turns ih =>
    rw [extendFile_succ]
    split
    · split
      · exact sameButFile_write
      · exact (ih _).trans (sameButFile_nextTurn heap s obj)
    · exact .refl s obj

theorem extendFile_backed (newOffset turns : ℕ) (hb : Backed s) :
    Backed (extendFile heap obj newOffset turns s).1 := by
  induction turns generalizing s with
  | zero => exact hb
  | succ turns ih =>
    rw [extendFile_succ]
    have hw : Backed (zeroWrite heap s obj).1 := memfsWrite_backed hb
    split
    · split
      · exact hw
      · exact ih (hw.congr rfl)
    · exact hb

/-- The sizes of the files after the write of a turn. -/
theorem zeroWrite_size (heap : Allocator) (s : Fs) (obj m : ℕ) :
    ((zeroWrite heap s obj).1.nodes m).size =
      if m = (s.objects obj).privateData ∧ heap s.allocs ≠ none then
        max (s.nodes m).size (wrap 64 ((s.objects obj).offset + 1))
      else (s.nodes m).size := by
  rw [zeroWrite]
  by_cases hm : m = (s.objects obj).privateData
  · rw [hm, memfsWrite_size]
    by_cases hheap : heap s.allocs = none
    · rw [if_pos hheap, if_neg fun h => h.2 hheap]
    · rw [if_neg hheap, if_pos ⟨rfl, hheap⟩]
  · rw [memfsWrite_other hm, if_neg fun h => hm h.1]

/-- The write of a turn fails to grow the file, grows it, or stays inside it. -/
theorem zeroWrite_cases (heap : Allocator) (ho : (s.objects obj).offset + 1 < 2 ^ 64) :
    ((s.nodes (s.objects obj).privateData).size ≤ (s.objects obj).offset ∧ heap s.allocs = none ∧
        (zeroWrite heap s obj).2 = -1) ∨
      ((s.nodes (s.objects obj).privateData).size ≤ (s.objects obj).offset ∧
        heap s.allocs ≠ none ∧ (zeroWrite heap s obj).2 = 1) ∨
      ((s.objects obj).offset < (s.nodes (s.objects obj).privateData).size ∧
        (zeroWrite heap s obj).2 = 1 ∧ (zeroWrite heap s obj).1.allocs = s.allocs) := by
  rw [zeroWrite]
  rcases memfsWrite_cases heap s (s.objects obj).privateData (fun _ => 0) 1
    (s.objects obj).offset with ⟨hlt, hheap, hw⟩ | ⟨_, hlt, hheap, hw⟩ | ⟨hle, hw⟩
  · rw [wrap_of_lt ho] at hlt
    exact .inl ⟨Nat.le_of_lt_succ hlt, hheap, by rw [hw]⟩
  · rw [wrap_of_lt ho] at hlt
    refine .inr (.inl ⟨Nat.le_of_lt_succ hlt, ?_, by rw [hw]; rfl⟩)
    rw [hheap]
    nofun
  · rw [wrap_of_lt ho] at hle
    exact .inr (.inr ⟨hle, by rw [hw]; rfl, by rw [hw]; rfl⟩)

/-- A turn does not make a file smaller. -/
theorem zeroWrite_size_le (m : ℕ) :
    (s.nodes m).size ≤ ((zeroWrite heap s obj).1.nodes m).size := by
  rw [zeroWrite_size]
  split
  · exact Nat.le_max_left ..
  · exact le_rfl

/-- The loop does not make a file smaller. -/
theorem extendFile_size_le {newOffset turns : ℕ} (m : ℕ) :
    (s.nodes m).size ≤ ((extendFile heap obj newOffset turns s).1.nodes m).size := by
  induction turns generalizing s with
  | zero => exact le_rfl
  | succ turns ih =>
    rw [extendFile_succ]
    split
    · split
      · exact zeroWrite_size_le m
      · exact (zeroWrite_size_le m).trans (ih (s := nextTurn heap s obj))
    · exact le_rfl

/-- **The loop fills with zeros** what is between the offset and the new offset. -/
theorem extendFile_bytes {newOffset turns : ℕ} (hb : Backed s) (hnew : newOffset < 2 ^ 64)
    (hturns : newOffset - (s.objects obj).offset ≤ turns) (m i : ℕ) (hi : i < (s.nodes m).size) :
    byteAt (extendFile heap obj newOffset turns s).1 m i =
      if m = (s.objects obj).privateData ∧ (s.objects obj).offset ≤ i ∧ i < newOffset then some 0
      else byteAt s m i := by
  induction turns generalizing s with
  | zero =>
    rw [if_neg (by omega)]
    rfl
  | succ turns ih =>
    rw [extendFile_succ]
    by_cases hlt : (s.objects obj).offset < newOffset
    swap
    · rw [if_neg hlt, if_neg (by omega)]
    rw [if_pos hlt]
    have ho : (s.objects obj).offset + 1 < 2 ^ 64 := by omega
    have hwrite : byteAt (zeroWrite heap s obj).1 m i =
        if m = (s.objects obj).privateData ∧ i = (s.objects obj).offset then some 0
        else byteAt s m i := memfsWrite_zero hb ho m i hi
    by_cases hcode : (zeroWrite heap s obj).2 ≠ 1
    · -- only growing can fail, and then the offset is past the end
      rw [if_pos hcode, hwrite]
      rcases zeroWrite_cases heap ho with ⟨hsize, -, -⟩ | ⟨-, -, hone⟩ | ⟨-, hone, -⟩
      · have hno : ∀ P : Prop, ¬ (m = (s.objects obj).privateData ∧
            (s.objects obj).offset ≤ i ∧ P) := by
          rintro P ⟨rfl, hle, -⟩
          omega
        rw [if_neg (hno _), if_neg]
        rintro ⟨hm, he⟩
        exact hno True ⟨hm, he.ge, trivial⟩
      · exact absurd hone hcode
      · exact absurd hone hcode
    · rw [if_neg hcode]
      obtain ⟨hobj, -⟩ := nextTurn_objects heap ho
      have hb' : Backed (nextTurn heap s obj) := Backed.congr (memfsWrite_backed hb) rfl
      rw [ih hb' (by rw [hobj]; show newOffset - ((s.objects obj).offset + 1) ≤ turns; omega)
        (hi.trans_le (zeroWrite_size_le m)), hobj]
      show (if _ ∧ (s.objects obj).offset + 1 ≤ i ∧ _ then _ else byteAt (zeroWrite heap s obj).1 m i) = _
      rw [hwrite]
      by_cases hm : m = (s.objects obj).privateData
      · simp only [hm, true_and]
        by_cases he : i = (s.objects obj).offset
        · rw [if_neg (by omega), if_pos he, if_pos (by omega)]
        · rw [if_neg he]
          by_cases hin : (s.objects obj).offset ≤ i ∧ i < newOffset
          · rw [if_pos hin, if_pos ⟨by omega, hin.2⟩]
          · rw [if_neg hin, if_neg fun h => hin ⟨by omega, h.2⟩]
      · rw [if_neg fun h => hm h.1, if_neg fun h => hm h.1, if_neg fun h => hm h.1]

/-- Without memory to grow, or without need, the loop keeps the sizes. -/
theorem extendFile_size_eq {newOffset turns : ℕ} (hnew : newOffset < 2 ^ 64)
    (h : heap s.allocs = none ∨ newOffset ≤ (s.nodes (s.objects obj).privateData).size) (m : ℕ) :
    ((extendFile heap obj newOffset turns s).1.nodes m).size = (s.nodes m).size := by
  induction turns generalizing s with
  | zero => rfl
  | succ turns ih =>
    rw [extendFile_succ]
    by_cases hlt : (s.objects obj).offset < newOffset
    swap
    · rw [if_neg hlt]
    rw [if_pos hlt]
    have ho : (s.objects obj).offset + 1 < 2 ^ 64 := by omega
    have hsize : ∀ m, ((zeroWrite heap s obj).1.nodes m).size = (s.nodes m).size := by
      intro m
      rw [zeroWrite_size, wrap_of_lt ho]
      split
      · rename_i hgrow
        have hle := h.resolve_left hgrow.2
        rw [hgrow.1, Nat.max_eq_left (by omega)]
      · rfl
    split
    · exact hsize m
    · rename_i hcode
      have hsame := sameButFile_nextTurn heap s obj
      refine (ih ?_).trans (hsize m)
      rw [hsame.privateData]
      -- a turn that succeeds without growing calls `kmalloc` at no time
      rcases zeroWrite_cases heap ho with ⟨-, -, hfail⟩ | ⟨-, hheap, -⟩ | ⟨-, -, hallocs⟩
      · rw [hfail] at hcode
        exact absurd (show (-1 : ℤ) ≠ 1 by decide) hcode
      · exact .inr ((h.resolve_left hheap).trans (hsize _).ge)
      · refine h.imp (fun hheap => ?_) fun hle => hle.trans (hsize _).ge
        show heap (zeroWrite heap s obj).1.allocs = none
        rw [hallocs, hheap]

/-- **The loop makes the file larger** if the new offset is past its end, the offset is not
there yet, and there is memory. -/
theorem extendFile_size_lt {newOffset turns : ℕ} (hnew : newOffset < 2 ^ 64)
    (hturns : newOffset - (s.objects obj).offset ≤ turns) (hlt : (s.objects obj).offset < newOffset)
    (hsize : (s.nodes (s.objects obj).privateData).size < newOffset)
    (hheap : heap s.allocs ≠ none) :
    (s.nodes (s.objects obj).privateData).size <
      ((extendFile heap obj newOffset turns s).1.nodes (s.objects obj).privateData).size := by
  induction turns generalizing s with
  | zero => omega
  | succ turns ih =>
    rw [extendFile_succ, if_pos hlt]
    have ho : (s.objects obj).offset + 1 < 2 ^ 64 := by omega
    have hsame := sameButFile_nextTurn heap s obj
    have hfile : ((zeroWrite heap s obj).1.nodes (s.objects obj).privateData).size =
        max (s.nodes (s.objects obj).privateData).size ((s.objects obj).offset + 1) := by
      rw [zeroWrite_size, if_pos ⟨rfl, hheap⟩, wrap_of_lt ho]
    rcases zeroWrite_cases heap ho with ⟨-, hnone, -⟩ | ⟨hgrow, -, -⟩ | ⟨hle, hcode, hallocs⟩
    · exact absurd hnone hheap
    · -- this turn grows the file
      have hnow : (s.nodes (s.objects obj).privateData).size <
          ((zeroWrite heap s obj).1.nodes (s.objects obj).privateData).size := by
        rw [hfile]
        omega
      split
      · exact hnow
      · exact hnow.trans_le (extendFile_size_le (s := nextTurn heap s obj) _)
    · -- a later one does
      have hsize' : ((nextTurn heap s obj).nodes (s.objects obj).privateData).size =
          (s.nodes (s.objects obj).privateData).size := hfile.trans (Nat.max_eq_left hle)
      obtain ⟨hobj, -⟩ := nextTurn_objects heap ho
      rw [if_neg (not_not.mpr hcode)]
      have hrec := ih (s := nextTurn heap s obj) (by rw [hobj]; show newOffset - (_ + 1) ≤ turns; omega)
        (by rw [hobj]; show _ + 1 < newOffset; omega) (by rw [hsame.privateData, hsize']; exact hsize)
        (by
          show heap (zeroWrite heap s obj).1.allocs ≠ none
          rwa [hallocs])
      rw [hsame.privateData, hsize'] at hrec
      exact hrec

/-! ### Opening -/

/-- The state after a node was made. -/
def made (s : Fs) (name : List UInt8) (mode : ℕ) : Fs :=
  { s.tick with
    nodes := Function.update s.nodes s.nextNode ⟨name.take 255, mode, 0, [], none⟩
    nextNode := s.nextNode + 1 }

/-- The state after a node was made and put into a directory. -/
def created (s : Fs) (parent : ℕ) (name : List UInt8) (mode : ℕ) : Fs :=
  vfsAddChild (made s name mode) parent s.nextNode

/-- A node is made, if there is memory. -/
theorem vfsCreateNode_cases (heap : Allocator) (s : Fs) (name : List UInt8) (mode : ℕ) :
    (heap s.allocs = none ∧ vfsCreateNode heap s name mode = (s.tick, none)) ∨
      ((∃ memory, heap s.allocs = some memory) ∧
        vfsCreateNode heap s name mode = (made s name mode, some s.nextNode)) := by
  unfold vfsCreateNode
  cases hheap : heap s.allocs with
  | none => exact .inl ⟨rfl, rfl⟩
  | some memory => exact .inr ⟨⟨memory, rfl⟩, rfl⟩

/-- `fs_create` finds no directory, or no memory, or makes a node. -/
theorem fsCreate_cases (heap : Allocator) (s : Fs) (path : List UInt8) (mode : ℕ) :
    (creationTarget s path = none ∧ fsCreate heap s path mode = (s, none)) ∨
      (∃ target, creationTarget s path = some target ∧ heap s.allocs = none ∧
        fsCreate heap s path mode = (s.tick, none)) ∨
      ∃ parent name memory, creationTarget s path = some (parent, name) ∧
        heap s.allocs = some memory ∧
          fsCreate heap s path mode = (created s parent name mode, some s.nextNode) := by
  unfold fsCreate
  cases htarget : creationTarget s path with
  | none => exact .inl ⟨rfl, rfl⟩
  | some target =>
    obtain ⟨parent, name⟩ := target
    rcases vfsCreateNode_cases heap s name mode with ⟨hheap, h⟩ | ⟨⟨memory, hheap⟩, h⟩
    · exact .inr (.inl ⟨_, rfl, hheap, by simp only [h]⟩)
    · exact .inr (.inr ⟨parent, name, memory, rfl, hheap, by simp only [h]; rfl⟩)

theorem freeSlot_spec {i : ℕ} (h : freeSlot s = some i) : i < 256 ∧ s.fdTable i = none := by
  unfold freeSlot at h
  refine ⟨List.mem_range.mp (List.mem_of_find?_eq_some h), ?_⟩
  have hnone := List.find?_some h
  exact Option.isNone_iff_eq_none.mp hnone

/-- Nothing but the count of calls of `kmalloc` changed. -/
structure SameFs (s' s : Fs) : Prop where
  /-- The nodes. -/
  nodes : s'.nodes = s.nodes
  /-- How many nodes there are. -/
  nextNode : s'.nextNode = s.nextNode
  /-- The root. -/
  vfsRoot : s'.vfsRoot = s.vfsRoot
  /-- The table of descriptors. -/
  fdTable : s'.fdTable = s.fdTable
  /-- The file objects. -/
  objects : s'.objects = s.objects
  /-- How many file objects there are. -/
  nextObject : s'.nextObject = s.nextObject

/-- A file object and a descriptor for a node were made. -/
structure Opened (s' s : Fs) (node i : ℕ) : Prop where
  /-- The nodes. -/
  nodes : s'.nodes = s.nodes
  /-- How many nodes there are. -/
  nextNode : s'.nextNode = s.nextNode
  /-- The root. -/
  vfsRoot : s'.vfsRoot = s.vfsRoot
  /-- The descriptor. -/
  fdTable : s'.fdTable = Function.update s.fdTable i (some ⟨i, some s.nextObject, 0⟩)
  /-- The file object. -/
  objects : s'.objects = Function.update s.objects s.nextObject ⟨(s.nodes node).size, 0, node⟩
  /-- How many file objects there are. -/
  nextObject : s'.nextObject = s.nextObject + 1

/-- A descriptor is opened, or there is none free or no memory for it. -/
theorem openNode_cases (heap : Allocator) (s : Fs) (node : ℕ) :
    (freeSlot s = none ∧ openNode heap s node = (s, -1)) ∨
      ((heap s.allocs = none ∨ heap (s.allocs + 1) = none) ∧ (openNode heap s node).2 = -1 ∧
        SameFs (openNode heap s node).1 s) ∨
      ∃ i, freeSlot s = some i ∧ (openNode heap s node).2 = (i : ℤ) ∧
        Opened (openNode heap s node).1 s node i := by
  unfold openNode fdAlloc
  cases hslot : freeSlot s with
  | none => exact .inl ⟨rfl, rfl⟩
  | some i =>
    obtain ⟨hi, hnone⟩ := freeSlot_spec hslot
    have hrange : (0 : ℤ) ≤ (i : ℤ) ∧ (i : ℤ) < 256 := by omega
    have hneg : ¬ (i : ℤ) < 0 := by omega
    refine .inr ?_
    cases h₁ : heap s.allocs with
    | none => exact .inl ⟨.inl rfl, rfl, ⟨rfl, rfl, rfl, rfl, rfl, rfl⟩⟩
    | some memory =>
      have hallocs : (s.tick.setEntry i (some ⟨i, none, 0⟩)).allocs = s.allocs + 1 := rfl
      simp only [if_neg hneg, hallocs]
      cases h₂ : heap (s.allocs + 1) with
      | none =>
        refine .inl ⟨.inr rfl, rfl, ⟨?_, ?_, ?_, ?_, ?_, ?_⟩⟩
        all_goals
          unfold fdFree
          rw [if_pos hrange]
        · rfl
        · rfl
        · rfl
        · show Function.update (Function.update s.fdTable i _) (i : ℤ).toNat none = s.fdTable
          rw [Int.toNat_natCast, Function.update_idem, ← hnone, Function.update_eq_self]
        · rfl
        · rfl
      | some memory' =>
        obtain ⟨t, ht⟩ : ∃ t, makeObject (s.tick.setEntry i (some ⟨i, none, 0⟩)).tick node = t :=
          ⟨_, rfl⟩
        have htable : t.fdTable = Function.update s.fdTable i (some ⟨i, none, 0⟩) := by
          rw [← ht]
          rfl
        have hset : fdSetEntry t i s.nextObject =
            (t.setEntry i (some ⟨i, some s.nextObject, 0⟩), 0) := by
          unfold fdSetEntry fdGet
          rw [if_pos hrange, htable, Int.toNat_natCast, Function.update_self]
        have hobj : (s.tick.setEntry i (some ⟨i, none, 0⟩)).nextObject = s.nextObject := rfl
        simp only [ht, hobj, hset, lt_irrefl, if_false]
        refine .inr ⟨i, rfl, rfl, ?_, ?_, ?_, ?_, ?_, ?_⟩
        · rw [← ht]
          rfl
        · rw [← ht]
          rfl
        · rw [← ht]
          rfl
        · show Function.update t.fdTable i _ = _
          rw [htable, Function.update_idem]
        · rw [← ht]
          rfl
        · rw [← ht]
          rfl

/-- A file that is made has no `S_IFDIR`. -/
theorem regular_not_dir (mode : ℕ) : (sIfreg ||| (mode &&& 0o777)) &&& sIfdir = 0 := by
  rw [Nat.and_or_distrib_right, Nat.and_assoc]
  have h₁ : sIfreg &&& sIfdir = 0 := by decide
  have h₂ : 0o777 &&& sIfdir = 0 := by decide
  rw [h₁, h₂, Nat.and_zero, Nat.or_self]

/-- The node that was made, in the directory. -/
theorem created_new (s : Fs) (parent : ℕ) (name : List UInt8) (mode : ℕ) :
    ((created s parent name mode).nodes s.nextNode).name = name.take 255 ∧
      ((created s parent name mode).nodes s.nextNode).mode = mode ∧
        ((created s parent name mode).nodes s.nextNode).size = 0 ∧
          ((created s parent name mode).nodes s.nextNode).privateData = none := by
  unfold created made vfsAddChild
  by_cases h : s.nextNode = parent
  · rw [h, Fs.setNode_self]
    simp only [Function.update_self, and_self]
  · rw [Fs.setNode_of_ne _ _ h]
    simp only [Function.update_self, and_self]

/-- The other nodes keep all but their children. -/
theorem created_old {parent mode m : ℕ} {name : List UInt8} (h : m ≠ s.nextNode) :
    (created s parent name mode).nodes m =
      { s.nodes m with children :=
          if m = parent then s.nextNode :: (s.nodes m).children else (s.nodes m).children } := by
  unfold created made vfsAddChild
  by_cases hp : m = parent
  · subst hp
    rw [Fs.setNode_self, if_pos rfl]
    simp only [Function.update_of_ne h]
  · rw [Fs.setNode_of_ne _ _ hp, if_neg hp]
    simp only [Function.update_of_ne h]

theorem created_backed {parent mode : ℕ} {name : List UInt8} (hb : Backed s) :
    Backed (created s parent name mode) := by
  obtain ⟨-, -, hsize, -⟩ := created_new s parent name mode
  refine ⟨fun m hm => ?_, fun m => ?_⟩
  · by_cases h : m = s.nextNode
    · rw [h, hsize]
    · rw [created_old h] at hm ⊢
      exact hb.empty m hm
  · by_cases h : m = s.nextNode
    · rw [h, hsize]
      exact Nat.two_pow_pos 64
    · rw [created_old h]
      exact hb.size_lt m

/-- A file without memory is not truncated. -/
theorem truncate_none {flags : ℕ} (h : (s.nodes node).privateData = none) :
    truncate s node flags = s := by
  unfold truncate
  rw [h]
  exact if_neg fun hc => absurd hc.2 Bool.false_ne_true

theorem truncate_backed {flags : ℕ} (hb : Backed s) : Backed (truncate s node flags) := by
  unfold truncate
  split
  · exact hb.update rfl (fun _ => rfl) (Nat.two_pow_pos 64)
  · exact hb

/-- What `syscall_open` does: nothing; an attempt to make a node; a descriptor for a node
that it made; a descriptor for a node that it found. -/
theorem syscallOpen_cases (heap : Allocator) (s : Fs) (path : List UInt8) (flags mode : ℕ) :
    (((fsLookup s path = none ∧ (flags &&& oCreat = 0 ∨ creationTarget s path = none)) ∨
        ∃ node, fsLookup s path = some node ∧ (s.nodes node).isDir = true) ∧
        syscallOpen heap s path flags mode = (s, -1)) ∨
      (fsLookup s path = none ∧ flags &&& oCreat ≠ 0 ∧
        (∃ target, creationTarget s path = some target) ∧ heap s.allocs = none ∧
          syscallOpen heap s path flags mode = (s.tick, -1)) ∨
      (∃ parent name memory, fsLookup s path = none ∧ flags &&& oCreat ≠ 0 ∧
        creationTarget s path = some (parent, name) ∧ heap s.allocs = some memory ∧
          syscallOpen heap s path flags mode =
            openNode heap (created s parent name (sIfreg ||| (mode &&& 0o777))) s.nextNode) ∨
      ∃ node, fsLookup s path = some node ∧ (s.nodes node).isDir = false ∧
        syscallOpen heap s path flags mode = openNode heap (truncate s node flags) node := by
  unfold syscallOpen
  cases hfound : fsLookup s path with
  | some node =>
    cases hdir : (s.nodes node).isDir with
    | true => exact .inl ⟨.inr ⟨node, rfl, hdir⟩, by simp only [hdir, if_true]⟩
    | false =>
      refine .inr (.inr (.inr ⟨node, rfl, hdir, ?_⟩))
      simp only [hdir, Bool.false_eq_true, if_false]
  | none =>
    by_cases hcreat : flags &&& oCreat = 0
    · refine .inl ⟨.inl ⟨rfl, .inl hcreat⟩, ?_⟩
      simp only [hcreat, ne_eq, not_true, if_false]
    · rcases fsCreate_cases heap s path (sIfreg ||| (mode &&& 0o777)) with
        ⟨htarget, h⟩ | ⟨target, htarget, hheap, h⟩ | ⟨parent, name, memory, htarget, hheap, h⟩
      · refine .inl ⟨.inl ⟨rfl, .inr htarget⟩, ?_⟩
        simp only [ne_eq, hcreat, not_false_iff, if_true, h]
      · refine .inr (.inl ⟨rfl, hcreat, ⟨target, htarget⟩, hheap, ?_⟩)
        simp only [ne_eq, hcreat, not_false_iff, if_true, h]
      · refine .inr (.inr (.inl ⟨parent, name, memory, rfl, hcreat, htarget, hheap, ?_⟩))
        obtain ⟨-, hmode, -, hdata⟩ := created_new s parent name (sIfreg ||| (mode &&& 0o777))
        have hdir : ((created s parent name (sIfreg ||| (mode &&& 0o777))).nodes
            s.nextNode).isDir = false := by
          unfold Node.isDir
          rw [hmode, regular_not_dir]
          rfl
        simp only [ne_eq, hcreat, not_false_iff, if_true, h, hdir, Bool.false_eq_true, if_false,
          truncate_none hdata]

/-- Opening a node keeps the nodes. -/
theorem openNode_nodes (heap : Allocator) (s : Fs) (node : ℕ) :
    (openNode heap s node).1.nodes = s.nodes := by
  rcases openNode_cases heap s node with ⟨-, h⟩ | ⟨-, -, h⟩ | ⟨i, -, -, h⟩
  · rw [h]
  · exact h.nodes
  · exact h.nodes

/-- **The rule for `syscall_open`**: what is kept when a node is made, when a file is emptied and
when a descriptor is opened is kept by the call. -/
theorem syscallOpen_rule (P : Fs → Prop) (htick : ∀ s, P s → P s.tick)
    (hmade : ∀ s parent name mode, P s → P (created s parent name mode))
    (hempty : ∀ s node flags, P s → P (truncate s node flags))
    (hopen : ∀ s node, P s → P (openNode heap s node).1) (path : List UInt8) (flags mode : ℕ)
    (h : P s) : P (syscallOpen heap s path flags mode).1 := by
  rcases syscallOpen_cases heap s path flags mode with
    ⟨-, ho⟩ | ⟨-, -, -, -, ho⟩ | ⟨parent, name, memory, -, -, -, -, ho⟩ | ⟨node, -, -, ho⟩
  · rw [ho]
    exact h
  · rw [ho]
    exact htick s h
  · rw [ho]
    exact hopen _ _ (hmade s parent name _ h)
  · rw [ho]
    exact hopen _ _ (hempty s node flags h)

/-! ### The other calls -/

theorem setEntryOffset_nodes (s : Fs) (fd : ℤ) (v : ℕ) :
    (setEntryOffset s fd v).nodes = s.nodes := rfl

theorem setEntryOffset_objects (s : Fs) (fd : ℤ) (v : ℕ) :
    (setEntryOffset s fd v).objects = s.objects := rfl

theorem syscallClose_nodes (s : Fs) (fd : ℤ) : (syscallClose s fd).1.nodes = s.nodes := by
  unfold syscallClose fdFree
  split
  · rfl
  · split <;> rfl

theorem syscallRead_nodes (s : Fs) (fd : ℤ) (count : ℕ) :
    (syscallRead s fd count).1.nodes = s.nodes := by
  unfold syscallRead
  split
  · rfl
  · dsimp only
    split <;> rfl

/-- The nodes after a write. -/
theorem syscallWrite_nodes (heap : Allocator) {fd : ℤ} (buf : ℕ → UInt8) (count : ℕ)
    (h : openObject s fd = some obj) :
    (syscallWrite heap s fd buf count).1.nodes =
      (memfsWrite heap s (s.objects obj).privateData buf count (s.objects obj).offset).1.nodes := by
  unfold syscallWrite
  rw [h]
  dsimp only
  split <;> rfl

/-- The part of `syscall_lseek` that extends the file. -/
def seekExtend (heap : Allocator) (s : Fs) (obj newOffset : ℕ) : Fs × Bool :=
  if (s.objects obj).size < newOffset then
    extendFile heap obj newOffset (newOffset - (s.objects obj).offset) s
  else (s, true)

/-- `syscall_lseek` on an open descriptor and with a good `whence`. -/
theorem syscallLseek_eq (heap : Allocator) {fd offset whence : ℤ} {newOffset : ℕ}
    (h : openObject s fd = some obj)
    (hnew : seekTarget (s.objects obj) offset whence = some newOffset) :
    syscallLseek heap s fd offset whence =
      if (seekExtend heap s obj newOffset).2 then
        (setEntryOffset ((seekExtend heap s obj newOffset).1.setObject obj fun o =>
          { o with offset := newOffset }) fd newOffset, toSigned 64 newOffset)
      else ((seekExtend heap s obj newOffset).1, -1) := by
  unfold syscallLseek seekExtend
  simp only [h, hnew]
  split
  · rename_i heq
    rw [heq]
    rfl
  · rename_i heq
    rw [heq]
    rfl

/-- `syscall_lseek` fails at once, or the descriptor is open and `whence` is good. -/
theorem syscallLseek_cases (heap : Allocator) (s : Fs) (fd offset whence : ℤ) :
    syscallLseek heap s fd offset whence = (s, -1) ∨
      ∃ obj newOffset, openObject s fd = some obj ∧
        seekTarget (s.objects obj) offset whence = some newOffset := by
  unfold syscallLseek
  cases hobj : openObject s fd with
  | none => exact .inl rfl
  | some obj =>
    cases hnew : seekTarget (s.objects obj) offset whence with
    | none => exact .inl (by dsimp only; rw [hnew])
    | some newOffset => exact .inr ⟨obj, newOffset, rfl, hnew⟩

/-- The nodes after a seek. -/
theorem syscallLseek_nodes (heap : Allocator) {fd offset whence : ℤ} {newOffset : ℕ}
    (h : openObject s fd = some obj)
    (hnew : seekTarget (s.objects obj) offset whence = some newOffset) :
    (syscallLseek heap s fd offset whence).1.nodes = (seekExtend heap s obj newOffset).1.nodes := by
  rw [syscallLseek_eq heap h hnew]
  split <;> rfl

theorem seekTarget_lt {o : FileObject} {offset whence : ℤ} {newOffset : ℕ}
    (h : seekTarget o offset whence = some newOffset) : newOffset < 2 ^ 64 := by
  unfold seekTarget at h
  split at h
  · exact Option.some.inj h ▸ ofInt_lt ..
  · split at h
    · exact Option.some.inj h ▸ ofInt_lt ..
    · split at h
      · exact Option.some.inj h ▸ ofInt_lt ..
      · cases h

/-! ### Files without memory -/

theorem syscallLseek_backed (heap : Allocator) (fd offset whence : ℤ) (hb : Backed s) :
    Backed (syscallLseek heap s fd offset whence).1 := by
  rcases syscallLseek_cases heap s fd offset whence with hno | ⟨obj, newOffset, hobj, hnew⟩
  · rw [hno]
    exact hb
  refine Backed.congr ?_ (syscallLseek_nodes heap hobj hnew)
  unfold seekExtend
  split
  · exact extendFile_backed _ _ hb
  · exact hb

/-- A call keeps that files without memory are empty. -/
theorem fileStep_backed (hb : Backed s) {c : FileCall} {s' : Fs}
    (h : fileStep heap s c = some s') : Backed s' := by
  cases c with
  | «open» path flags mode =>
    obtain rfl := Option.some.inj h
    exact syscallOpen_rule Backed (fun _ h => h.congr rfl) (fun _ _ _ _ h => created_backed h)
      (fun _ _ _ h => truncate_backed h) (fun s node h => h.congr (openNode_nodes heap s node)) path
      flags mode hb
  | close fd =>
    obtain rfl := Option.some.inj h
    exact hb.congr (syscallClose_nodes s fd)
  | read fd count =>
    obtain rfl := Option.some.inj h
    exact hb.congr (syscallRead_nodes s fd count)
  | write fd buf count =>
    obtain rfl := Option.some.inj h
    cases hobj : openObject s fd with
    | none =>
      unfold syscallWrite
      rw [hobj]
      exact hb
    | some obj => exact (memfsWrite_backed hb).congr (syscallWrite_nodes heap buf count hobj)
  | lseek fd offset whence =>
    obtain rfl := Option.some.inj h
    exact syscallLseek_backed heap fd offset whence hb

/-! ### What `fs_init` makes -/

/-- The state after a file with contents was made and put into a directory. -/
def createdFile (s : Fs) (parent : ℕ) (name : List UInt8) (mode : ℕ) (data : Buffer) (size : ℕ) :
    Fs :=
  vfsAddChild ((made s name mode).tick.setNode s.nextNode fun n =>
    { n with privateData := some data, size := size }) parent s.nextNode

/-- A file of `fs_init` is made with its contents, or not at all. -/
theorem initFile_cases {parent capacity : ℕ} {name content : String} {s' : Fs}
    (h : initFile heap s parent name capacity content = some s') :
    (heap s.allocs = none ∧ s' = s.tick) ∨
      ∃ bytes, heap s.allocs ≠ none ∧ s' = createdFile s parent (bytesOf name) (sIfreg ||| 0o644)
        ⟨capacity, bytes⟩ (bytesOf content).length := by
  unfold initFile at h
  rcases vfsCreateNode_cases heap s (bytesOf name) (sIfreg ||| 0o644) with
    ⟨hheap, hmade⟩ | ⟨⟨memory, hheap⟩, hmade⟩
  · rw [hmade] at h
    exact .inl ⟨hheap, (Option.some.inj h).symm⟩
  · rw [hmade] at h
    obtain ⟨memory', -, h⟩ := Option.map_eq_some_iff.mp h
    exact .inr ⟨_, hheap ▸ nofun, h.symm⟩

/-- The file system with nothing but the root. -/
def rootFs : Fs := { made fsEmpty (bytesOf "/") (sIfdir ||| 0o755) with vfsRoot := 0 }

/-- The file system with the directory of the files in memory. -/
def memfsFs : Fs := created rootFs 0 (bytesOf "memfs") (sIfdir ||| 0o755)

/-- `fs_init` makes two directories, a file, and maybe a directory with a file. -/
theorem fsInit_cases (h : fsInit heap = some s) :
    ∃ s₂, initFile heap memfsFs 1 "hello.txt" 32 "Hello, World!\nThis is a test file.\n" = some s₂ ∧
      (s = s₂.tick ∨ initFile heap (created s₂ 1 (bytesOf "test") (sIfdir ||| 0o755)) s₂.nextNode
        "nested.txt" 16 "Nested file\n" = some s) := by
  unfold fsInit at h
  rcases vfsCreateNode_cases heap fsEmpty (bytesOf "/") (sIfdir ||| 0o755) with
    ⟨-, hmade⟩ | ⟨-, hmade⟩
  · rw [hmade] at h
    cases h
  rw [hmade] at h
  obtain ⟨s₁, hs₁⟩ : ∃ s₁, rootFs = s₁ := ⟨_, rfl⟩
  have hroot : ({ made fsEmpty (bytesOf "/") (sIfdir ||| 0o755) with vfsRoot := fsEmpty.nextNode } :
    Fs) = s₁ := hs₁
  have hzero : fsEmpty.nextNode = 0 := rfl
  have hone : s₁.nextNode = 1 := hs₁ ▸ rfl
  simp only [hroot] at h
  rcases vfsCreateNode_cases heap s₁ (bytesOf "memfs") (sIfdir ||| 0o755) with
    ⟨-, hmade₁⟩ | ⟨-, hmade₁⟩
  · rw [hmade₁] at h
    cases h
  rw [hmade₁, hzero, hone] at h
  obtain ⟨s₂, hhello, h⟩ := Option.bind_eq_some_iff.mp h
  refine ⟨s₂, by rw [memfsFs, hs₁, created, hone]; exact hhello, ?_⟩
  rcases vfsCreateNode_cases heap s₂ (bytesOf "test") (sIfdir ||| 0o755) with
    ⟨-, hmade₂⟩ | ⟨-, hmade₂⟩
  · rw [hmade₂] at h
    exact .inl (Option.some.inj h).symm
  · rw [hmade₂] at h
    exact .inr h

/-- **The rule for `fs_init`**: what holds when there is nothing but the root, and is kept
when directories and files are made, holds after `fs_init`. -/
theorem fsInit_rule (P : Fs → Prop)
    (hroot : P { made fsEmpty (bytesOf "/") (sIfdir ||| 0o755) with vfsRoot := 0 })
    (htick : ∀ s, P s → P s.tick)
    (hdir : ∀ s parent name mode, P s → P (created s parent name mode))
    (hfile : ∀ s parent name mode data size, P s → size < 2 ^ 64 →
      P (createdFile s parent name mode data size))
    (h : fsInit heap = some s) : P s := by
  obtain ⟨s₂, hhello, htest⟩ := fsInit_cases h
  have hmemfs : P memfsFs := hdir rootFs _ _ _ hroot
  have hs₂ : P s₂ := by
    rcases initFile_cases hhello with ⟨-, rfl⟩ | ⟨bytes, -, rfl⟩
    · exact htick _ hmemfs
    · exact hfile _ _ _ _ _ _ hmemfs (by decide)
  rcases htest with rfl | htest
  · exact htick _ hs₂
  · have hs₃ := hdir s₂ 1 (bytesOf "test") (sIfdir ||| 0o755) hs₂
    rcases initFile_cases htest with ⟨-, rfl⟩ | ⟨bytes, -, rfl⟩
    · exact htick _ hs₃
    · exact hfile _ _ _ _ _ _ hs₃ (by decide)

theorem made_backed {name : List UInt8} {mode : ℕ} (hb : Backed s) : Backed (made s name mode) :=
  hb.update rfl (fun _ => rfl) (Nat.two_pow_pos 64)

theorem createdFile_backed {parent mode size : ℕ} {name : List UInt8} {data : Buffer}
    (hb : Backed s) (hlt : size < 2 ^ 64) : Backed (createdFile s parent name mode data size) := by
  have hdata : Backed ((made s name mode).tick.setNode s.nextNode fun n =>
      { n with privateData := some data, size := size }) :=
    ((made_backed hb).congr rfl : Backed (made s name mode).tick).update rfl nofun hlt
  exact hdata.update rfl (hdata.empty parent) (hdata.size_lt parent)

theorem fsInit_backed (h : fsInit heap = some s) : Backed s := by
  have hempty : Backed fsEmpty := ⟨fun _ _ => rfl, fun _ => Nat.two_pow_pos 64⟩
  exact fsInit_rule Backed ((made_backed hempty).congr rfl) (fun _ hb => hb.congr rfl)
    (fun _ _ _ _ hb => created_backed hb) (fun _ _ _ _ _ _ hb hlt => createdFile_backed hb hlt) h

/-- From `fs_init` on, a file without memory is empty. -/
theorem backed_always (h : fsInit heap = some s) (calls : List FileCall) :
    Always (fileStep heap) Backed s calls :=
  always_of_step (fun _ _ _ hb hs => fileStep_backed hb hs) (fsInit_backed h)

/-! ### A start -/

/-- A `kmalloc` that never fails, and whose memory is zeroed. -/
def zeroedHeap : Allocator := fun _ => some fun _ => 0

/-- The file system that `fs_init` makes of it. -/
def startedFs : Fs := (fsInit zeroedHeap).getD fsEmpty

theorem startedFs_eq : fsInit zeroedHeap = some startedFs := rfl

end PrismaticOS.Kernel
