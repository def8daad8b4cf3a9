import PrismaticOS.Kernel.FsTree

/-!
# The end of a file

A file object has a copy of the size of its node, made when the file was opened.
`syscall_lseek` with `SEEK_END` goes by the copy. A write through a descriptor sets the
copy to the offset where the write ended, which may be before the end of the file;
`syscall_lseek` makes a file larger and leaves the copy; the copies of other descriptors
of the file stay as they are.

## What is proved

`eof_agreement` — in a run from `fs_init`, every open descriptor always agrees with its
node about the size, and `SEEK_END` finds the end, exactly if every call meets `EofOk`.
`eof_stale` is a run of two calls where they do not.
-/

namespace PrismaticOS.Kernel

open PrismaticOS.Library

variable {heap : Allocator} {s s' : Fs} {node obj : ℕ} {path : List UInt8}

/-- A descriptor is open on the file object. -/
def IsOpen (s : Fs) (obj : ℕ) : Prop := ∃ fd, openObject s fd = some obj

/-- Every open descriptor has the size of its node, and a seek to the end gives it. -/
def EofAgree (heap : Allocator) (s : Fs) : Prop :=
  ∀ fd obj, openObject s fd = some obj →
    (s.objects obj).size = (s.nodes (s.objects obj).privateData).size ∧
      (syscallLseek heap s fd 0 2).2 =
        toSigned 64 (s.nodes (s.objects obj).privateData).size

/-! ### The condition -/

/-- There is no memory for the file to grow; or the offset after the write is the size of
the file then, and if the file grows no other file object is open on its node. A write
that returns nothing positive does not make the file larger. -/
def WriteOk (heap : Allocator) (s : Fs) (obj count : ℕ) : Prop :=
  let o := s.objects obj
  let size := (s.nodes o.privateData).size
  let newSize := wrap 64 (o.offset + count)
  (size < newSize ∧ heap s.allocs = none) ∨
    if 0 < toSigned 32 count then
      wrap 64 (o.offset + (toSigned 32 count).toNat) = max size newSize ∧
        (newSize ≤ size ∨
          ∀ obj', IsOpen s obj' → (s.objects obj').privateData = o.privateData → obj' = obj)
    else newSize ≤ size

/-- When a call keeps the descriptors in agreement with the nodes. -/
def EofOk (heap : Allocator) (s : Fs) : FileCall → Prop
  | .open path flags _ =>
    -- a file that has bytes is only truncated if it is not open
    flags &&& oTrunc ≠ 0 → ∀ node, fsLookup s path = some node → (s.nodes node).isDir = false →
      (s.nodes node).size ≠ 0 → ∀ obj, IsOpen s obj → (s.objects obj).privateData ≠ node
  | .close _ => True
  | .read _ _ => True
  | .write fd _ count => ∀ obj, openObject s fd = some obj → WriteOk heap s obj count
  | .lseek fd offset whence =>
    -- the file is not extended, or there is no memory to extend it
    ∀ obj newOffset, openObject s fd = some obj →
      seekTarget (s.objects obj) offset whence = some newOffset →
        newOffset ≤ (s.objects obj).size ∨ newOffset ≤ (s.objects obj).offset ∨
          heap s.allocs = none

/-! ### The invariant -/

/-- The open file objects and their nodes were made, and they agree about the size. -/
structure EofInv (s : Fs) : Prop where
  /-- A file without memory is empty. -/
  backed : Backed s
  /-- The tree. -/
  tree : TreeOk s
  /-- The file objects. -/
  object_lt : ∀ obj, IsOpen s obj → obj < s.nextObject
  /-- The nodes. -/
  node_lt : ∀ obj, IsOpen s obj → (s.objects obj).privateData < s.nextNode
  /-- The sizes. -/
  agree : ∀ obj, IsOpen s obj →
    (s.objects obj).size = (s.nodes (s.objects obj).privateData).size

/-- The rule for a call that opens nothing. -/
theorem EofInv.of_open (h : EofInv s) (hb : Backed s') (ht : TreeOk s')
    (hobj : s'.nextObject = s.nextObject) (hnode : s.nextNode ≤ s'.nextNode)
    (hopen : ∀ obj, IsOpen s' obj → IsOpen s obj)
    (hdata : ∀ obj, IsOpen s obj → (s'.objects obj).privateData = (s.objects obj).privateData)
    (hsize : ∀ obj, IsOpen s obj →
      (s'.objects obj).size = (s'.nodes (s.objects obj).privateData).size) : EofInv s' := by
  refine ⟨hb, ht, fun obj ho => ?_, fun obj ho => ?_, fun obj ho => ?_⟩
  · rw [hobj]
    exact h.object_lt obj (hopen obj ho)
  · rw [hdata obj (hopen obj ho)]
    exact (h.node_lt obj (hopen obj ho)).trans_le hnode
  · rw [hdata obj (hopen obj ho)]
    exact hsize obj (hopen obj ho)

theorem toSigned_of_word {n : ℕ} (h : n < 2 ^ 64) : ofInt 64 (n + (0 : ℤ)) = n := by
  unfold ofInt
  rw [add_zero, Int.emod_eq_of_lt (Int.natCast_nonneg n) (by exact_mod_cast h)]
  exact Int.toNat_natCast n

/-- If the sizes agree, `SEEK_END` finds the end. -/
theorem EofInv.eofAgree (h : EofInv s) : EofAgree heap s := by
  intro fd obj hobj
  have hagree := h.agree obj ⟨fd, hobj⟩
  refine ⟨hagree, ?_⟩
  have hlt : (s.objects obj).size < 2 ^ 64 := by
    rw [hagree]
    exact h.backed.size_lt _
  have hnew : seekTarget (s.objects obj) 0 2 = some (s.objects obj).size := by
    unfold seekTarget
    rw [if_neg (by decide), if_neg (by decide), if_pos rfl, toSigned_of_word hlt]
  rw [syscallLseek_eq heap hobj hnew]
  unfold seekExtend
  rw [if_neg (lt_irrefl _), if_pos rfl, hagree]

/-! ### Descriptors -/

/-- An open descriptor is an entry of the table with a file object. -/
theorem openObject_iff {fd : ℤ} : openObject s fd = some obj ↔
    (0 ≤ fd ∧ fd < 256) ∧ (s.fdTable fd.toNat).bind FileDescriptor.fileObject = some obj := by
  rw [openObject, fdGet]
  split
  · rename_i hrange
    rw [and_iff_right hrange]
  · rename_i hrange
    exact iff_of_false nofun fun h => hrange h.1

theorem openObject_congr (h : s'.fdTable = s.fdTable) (fd : ℤ) :
    openObject s' fd = openObject s fd := by
  rw [openObject, openObject, fdGet, fdGet, h]

theorem isOpen_congr (h : s'.fdTable = s.fdTable) (obj : ℕ) : IsOpen s' obj ↔ IsOpen s obj := by
  simp only [IsOpen, openObject_congr h]

/-- The offset in a descriptor does not matter. -/
theorem openObject_setEntryOffset (s : Fs) (fd fd' : ℤ) (v : ℕ) :
    openObject (setEntryOffset s fd v) fd' = openObject s fd' := by
  refine Option.ext fun obj => ?_
  rw [openObject_iff, openObject_iff]
  refine and_congr_right fun _ => ?_
  show (Function.update s.fdTable fd.toNat _ fd'.toNat).bind _ = _ ↔ _
  by_cases h : fd'.toNat = fd.toNat
  · rw [h, Function.update_self]
    cases s.fdTable fd.toNat <;> rfl
  · rw [Function.update_of_ne h]

/-- Freeing a descriptor opens none. -/
theorem openObject_fdFree {fd fd' : ℤ} (h : openObject (fdFree s fd) fd' = some obj) :
    openObject s fd' = some obj := by
  rw [fdFree] at h
  split at h
  swap
  · exact h
  obtain ⟨hrange, h⟩ := openObject_iff.mp h
  refine openObject_iff.mpr ⟨hrange, ?_⟩
  change (Function.update s.fdTable fd.toNat none fd'.toNat).bind _ = _ at h
  by_cases hfd : fd'.toNat = fd.toNat
  · rw [hfd, Function.update_self] at h
    cases h
  · rwa [Function.update_of_ne hfd] at h

/-- What is open after a descriptor was opened was open, or is the new file object. -/
theorem Opened.isOpen {i : ℕ} (h : Opened s' s node i) (ho : IsOpen s' obj) :
    IsOpen s obj ∨ obj = s.nextObject := by
  obtain ⟨fd, hfd⟩ := ho
  obtain ⟨hrange, hfd⟩ := openObject_iff.mp hfd
  rw [h.fdTable] at hfd
  by_cases heq : fd.toNat = i
  · rw [heq, Function.update_self] at hfd
    exact .inr (Option.some.inj hfd).symm
  · rw [Function.update_of_ne heq] at hfd
    exact .inl ⟨fd, openObject_iff.mpr ⟨hrange, hfd⟩⟩

/-- What was open stays open. -/
theorem Opened.openObject_old {i : ℕ} {fd : ℤ} (h : Opened s' s node i)
    (hslot : s.fdTable i = none) (ho : openObject s fd = some obj) :
    openObject s' fd = some obj := by
  obtain ⟨hrange, ho⟩ := openObject_iff.mp ho
  refine openObject_iff.mpr ⟨hrange, ?_⟩
  have hne : fd.toNat ≠ i := by
    intro heq
    rw [heq, hslot] at ho
    cases ho
  rw [h.fdTable, Function.update_of_ne hne, ho]

/-! ### Opening -/

theorem openNode_eof (h : EofInv s) (hnode : node < s.nextNode) :
    EofInv (openNode heap s node).1 := by
  have hb : Backed (openNode heap s node).1 := h.backed.congr (openNode_nodes heap s node)
  have ht : TreeOk (openNode heap s node).1 := openNode_treeOk h.tree
  rcases openNode_cases heap s node with ⟨-, ho⟩ | ⟨-, -, ho⟩ | ⟨i, -, -, ho⟩
  · rw [ho]
    exact h
  · refine h.of_open hb ht ho.nextObject ho.nextNode.ge (fun obj => (isOpen_congr ho.fdTable obj).mp)
      (fun obj _ => by rw [ho.objects]) fun obj hobj => ?_
    rw [ho.objects, ho.nodes]
    exact h.agree obj hobj
  · -- the new file object is none of those that were open
    have hold : ∀ obj, IsOpen s obj → (openNode heap s node).1.objects obj = s.objects obj := by
      intro obj hobj
      rw [ho.objects, Function.update_of_ne (h.object_lt obj hobj).ne]
    have hnew : (openNode heap s node).1.objects s.nextObject = ⟨(s.nodes node).size, 0, node⟩ := by
      rw [ho.objects, Function.update_self]
    refine ⟨hb, ht, fun obj hobj => ?_, fun obj hobj => ?_, fun obj hobj => ?_⟩
    · rw [ho.nextObject]
      rcases ho.isOpen hobj with hwas | rfl
      · exact Nat.lt_succ_of_lt (h.object_lt obj hwas)
      · exact Nat.lt_succ_self _
    · rw [ho.nextNode]
      rcases ho.isOpen hobj with hwas | rfl
      · rw [hold obj hwas]
        exact h.node_lt obj hwas
      · rw [hnew]
        exact hnode
    · rw [ho.nodes]
      rcases ho.isOpen hobj with hwas | rfl
      · rw [hold obj hwas]
        exact h.agree obj hwas
      · rw [hnew]

theorem created_eof {parent mode : ℕ} {name : List UInt8} (h : EofInv s) :
    EofInv (created s parent name mode) := by
  refine h.of_open (created_backed h.backed) (created_treeOk h.tree) rfl (Nat.le_succ _)
    (fun obj => id) (fun obj _ => rfl) fun obj hobj => ?_
  rw [created_old (h.node_lt obj hobj).ne]
  exact h.agree obj hobj

theorem truncate_size (s : Fs) {flags m : ℕ} (hm : m ≠ node) :
    (truncate s node flags).nodes m = s.nodes m := by
  unfold truncate
  split
  · exact Fs.setNode_of_ne _ _ hm
  · rfl

theorem truncate_eof {flags : ℕ} (h : EofInv s)
    (hok : flags &&& oTrunc ≠ 0 → (s.nodes node).size ≠ 0 →
      ∀ obj, IsOpen s obj → (s.objects obj).privateData ≠ node) :
    EofInv (truncate s node flags) := by
  have hb : Backed (truncate s node flags) := truncate_backed h.backed
  have ht : TreeOk (truncate s node flags) := truncate_treeOk h.tree
  have hsize : ∀ obj, IsOpen s obj → (s.objects obj).size =
      ((truncate s node flags).nodes (s.objects obj).privateData).size := by
    intro obj hobj
    rw [h.agree obj hobj]
    by_cases hnode : (s.objects obj).privateData = node
    swap
    · rw [truncate_size s hnode]
    rw [hnode]
    unfold truncate
    split
    swap
    · rfl
    rename_i htrunc
    rw [Fs.setNode_self]
    by_contra hne
    exact hok htrunc.1 hne obj hobj hnode
  have hframe : (truncate s node flags).fdTable = s.fdTable ∧
      (truncate s node flags).objects = s.objects ∧
        (truncate s node flags).nextObject = s.nextObject := by
    unfold truncate
    split <;> exact ⟨rfl, rfl, rfl⟩
  obtain ⟨hfd, hobjects, hnext⟩ := hframe
  refine h.of_open hb ht hnext (truncate_frame s node flags).2.1.ge
    (fun obj => (isOpen_congr hfd obj).mp) (fun obj _ => by rw [hobjects]) fun obj hobj => ?_
  rw [hobjects]
  exact hsize obj hobj

theorem syscallOpen_eof {flags mode : ℕ} (h : EofInv s)
    (hok : EofOk heap s (.open path flags mode)) :
    EofInv (syscallOpen heap s path flags mode).1 := by
  rcases syscallOpen_cases heap s path flags mode with
    ⟨-, ho⟩ | ⟨-, -, -, -, ho⟩ | ⟨parent, name, memory, -, -, -, -, ho⟩ | ⟨node, hfound, hdir, ho⟩
  · rw [ho]
    exact h
  · rw [ho]
    exact h.of_open (h.backed.congr rfl) (h.tree.congr rfl rfl fun _ => rfl) rfl le_rfl
      (fun obj => id) (fun obj _ => rfl) h.agree
  · rw [ho]
    exact openNode_eof (created_eof h) (Nat.lt_succ_self _)
  · rw [ho]
    refine openNode_eof (truncate_eof h fun htrunc hsize => hok htrunc node hfound hdir hsize) ?_
    rw [(truncate_frame s node flags).2.1]
    exact fsLookup_lt h.tree hfound

/-- Opening a node keeps what is open. -/
theorem openNode_old (heap : Allocator) (node : ℕ) (h : ∀ obj, IsOpen s obj → obj < s.nextObject) {fd : ℤ}
    (ho : openObject s fd = some obj) :
    openObject (openNode heap s node).1 fd = some obj ∧
      (openNode heap s node).1.objects obj = s.objects obj := by
  rcases openNode_cases heap s node with ⟨-, hopen⟩ | ⟨-, -, hopen⟩ | ⟨i, hslot, -, hopen⟩
  · rw [hopen]
    exact ⟨ho, rfl⟩
  · rw [openObject_congr hopen.fdTable, hopen.objects]
    exact ⟨ho, rfl⟩
  · refine ⟨hopen.openObject_old (freeSlot_spec hslot).2 ho, ?_⟩
    rw [hopen.objects, Function.update_of_ne (h obj ⟨fd, ho⟩).ne]

/-- A file that is open and has bytes is truncated: its descriptor does not see it. -/
theorem syscallOpen_stale {flags mode : ℕ} (h : EofInv s)
    (hno : ¬ EofOk heap s (.open path flags mode)) :
    ¬ EofAgree heap (syscallOpen heap s path flags mode).1 := by
  intro hagree
  unfold EofOk at hno
  push Not at hno
  obtain ⟨htrunc, node, hfound, hdir, hsize, obj, ⟨fd, hopen⟩, hnode⟩ := hno
  have hsyscall : syscallOpen heap s path flags mode =
      openNode heap (truncate s node flags) node := by
    unfold syscallOpen
    simp only [hfound, hdir, Bool.false_eq_true, if_false]
  have hdata : (s.nodes node).privateData.isSome = true := by
    rw [Option.isSome_iff_ne_none]
    exact fun hnone => hsize (h.backed.empty node hnone)
  have htruncate : truncate s node flags =
      s.setNode node fun n => { n with privateData := none, size := 0 } :=
    if_pos ⟨htrunc, hdata⟩
  rw [hsyscall, htruncate] at hagree
  obtain ⟨hopen', hsame⟩ := openNode_old heap node
    (s := s.setNode node fun n => { n with privateData := none, size := 0 }) h.object_lt hopen
  obtain ⟨hzero, -⟩ := hagree fd obj hopen'
  rw [openNode_nodes, hsame] at hzero
  have hobj : (s.objects obj).size = 0 := by
    rw [show (s.objects obj).size = _ from hzero, show (s.setNode node _).objects obj = s.objects obj
      from rfl, hnode, Fs.setNode_self]
  exact hsize (by rw [← hnode, ← h.agree obj ⟨fd, hopen⟩, hobj])

/-! ### Writing -/

/-- A file object after a write through it that ended at some offset. -/
def FileObject.wrote (o : FileObject) (e : ℕ) : FileObject := { o with offset := e, size := e }

/-- `syscall_write` in terms of what `memfs_write` did. -/
theorem syscallWrite_eq {t : Fs} {fd result : ℤ} {buf : ℕ → UInt8} {count : ℕ}
    (h : openObject s fd = some obj)
    (hw : memfsWrite heap s (s.objects obj).privateData buf count (s.objects obj).offset =
      (t, result)) :
    syscallWrite heap s fd buf count =
      if 0 < result then
        (setEntryOffset
          (t.setObject obj (·.wrote (wrap 64 ((s.objects obj).offset + result.toNat))))
          fd (wrap 64 ((s.objects obj).offset + result.toNat)), result)
      else (t, result) := by
  have hobjects := (memfsWrite_frame heap s (s.objects obj).privateData buf count
    (s.objects obj).offset).1
  rw [hw] at hobjects
  unfold syscallWrite
  simp only [h, hw]
  rw [show t.objects = s.objects from hobjects]
  rfl

/-- What `memfs_write` makes of the size: nothing, if the file is to grow and there is no
memory. -/
theorem memfsWrite_result {t : Fs} {result : ℤ} {buf : ℕ → UInt8} {count offset : ℕ}
    (hw : memfsWrite heap s node buf count offset = (t, result)) :
    ((s.nodes node).size < wrap 64 (offset + count) ∧ heap s.allocs = none ∧ result = -1 ∧
        (t.nodes node).size = (s.nodes node).size) ∨
      (¬ ((s.nodes node).size < wrap 64 (offset + count) ∧ heap s.allocs = none) ∧
        result = toSigned 32 count ∧
          (t.nodes node).size = max (s.nodes node).size (wrap 64 (offset + count))) := by
  have hsize := memfsWrite_size heap s node buf count offset
  rw [hw] at hsize
  rcases memfsWrite_cases heap s node buf count offset with
    ⟨hlt, hheap, h⟩ | ⟨memory, hlt, hheap, h⟩ | ⟨hle, h⟩
  · rw [hw] at h
    obtain ⟨rfl, rfl⟩ := Prod.mk.inj h
    exact .inl ⟨hlt, hheap, rfl, rfl⟩
  · rw [hw] at h
    obtain ⟨-, rfl⟩ := Prod.mk.inj h
    rw [hheap, if_neg (by nofun)] at hsize
    exact .inr ⟨fun hc => Option.some_ne_none memory (hheap.symm.trans hc.2), rfl, hsize⟩
  · rw [hw] at h
    obtain ⟨-, rfl⟩ := Prod.mk.inj h
    refine .inr ⟨fun hc => hc.1.not_ge hle, rfl, ?_⟩
    rw [Nat.max_eq_left hle] at hsize ⊢
    rw [ite_self] at hsize
    exact hsize

/-- After `memfs_write`, and before the file object is set: only the node changed. -/
theorem memfsWrite_eof {t : Fs} {result : ℤ} {buf : ℕ → UInt8} {count offset : ℕ}
    (hb : Backed s) (ht : TreeOk s)
    (hw : memfsWrite heap s node buf count offset = (t, result)) :
    Backed t ∧ TreeOk t ∧ t.objects = s.objects ∧ t.fdTable = s.fdTable ∧
      t.nextObject = s.nextObject ∧ t.nextNode = s.nextNode ∧
        ∀ m, m ≠ node → t.nodes m = s.nodes m := by
  obtain ⟨hobjects, hfd, hobj, hnode, hroot⟩ := memfsWrite_frame heap s node buf count offset
  have htree : TreeOk (memfsWrite heap s node buf count offset).1 :=
    ht.congr hroot hnode fun m => (memfsWrite_tree m).2.2
  have hback : Backed (memfsWrite heap s node buf count offset).1 := memfsWrite_backed hb
  have hother : ∀ m, m ≠ node →
      (memfsWrite heap s node buf count offset).1.nodes m = s.nodes m :=
    fun m hm => memfsWrite_other hm
  rw [hw] at hobjects hfd hobj hnode htree hback hother
  exact ⟨hback, htree, hobjects, hfd, hobj, hnode, hother⟩

theorem syscallWrite_none {fd : ℤ} {buf : ℕ → UInt8} {count : ℕ} (h : openObject s fd = none) :
    syscallWrite heap s fd buf count = (s, -1) := by
  unfold syscallWrite
  rw [h]

theorem syscallWrite_eof {fd : ℤ} {buf : ℕ → UInt8} {count : ℕ} (h : EofInv s)
    (hok : EofOk heap s (.write fd buf count)) :
    EofInv (syscallWrite heap s fd buf count).1 := by
  cases hopen : openObject s fd with
  | none =>
    rw [syscallWrite_none hopen]
    exact h
  | some obj =>
    obtain ⟨t, result, hw⟩ : ∃ t result, memfsWrite heap s (s.objects obj).privateData buf count
        (s.objects obj).offset = (t, result) := ⟨_, _, rfl⟩
    obtain ⟨hback, htree, hobjects, hfd, hobj, hnode, hother⟩ :=
      memfsWrite_eof h.backed h.tree hw
    rw [syscallWrite_eq hopen hw]
    have hisOpen := fun obj => (isOpen_congr hfd obj).mp
    -- the file objects as they are, if no size changes
    have hsame : (t.nodes (s.objects obj).privateData).size =
        (s.nodes (s.objects obj).privateData).size → EofInv t := by
      intro hsize
      refine h.of_open hback htree hobj hnode.ge hisOpen (fun _ _ => by rw [hobjects])
        fun obj' hobj' => ?_
      rw [hobjects, h.agree obj' hobj']
      by_cases hn : (s.objects obj').privateData = (s.objects obj).privateData
      · rw [hn, hsize]
      · rw [hother _ hn]
    rcases memfsWrite_result hw with ⟨-, -, rfl, hsize⟩ | ⟨hgrow, rfl, hsize⟩
    · rw [if_neg (by decide)]
      exact hsame hsize
    have hok' := (hok obj hopen).resolve_left hgrow
    by_cases hpos : 0 < toSigned 32 count
    swap
    · rw [if_neg hpos] at hok' ⊢
      exact hsame (hsize.trans (Nat.max_eq_left hok'))
    rw [if_pos hpos] at hok' ⊢
    obtain ⟨hend, hsole⟩ := hok'
    refine h.of_open (hback.congr rfl) (htree.congr rfl rfl fun _ => rfl) hobj hnode.ge
      (fun obj' ⟨fd', hobj'⟩ => hisOpen obj' ⟨fd', ?_⟩) (fun obj' _ => ?_) fun obj' hobj' => ?_
    · rw [openObject_setEntryOffset] at hobj'
      exact hobj'
    · rw [setEntryOffset_objects]
      by_cases heq : obj' = obj
      · rw [heq, Fs.setObject_self, hobjects]
        rfl
      · rw [Fs.setObject_of_ne _ _ heq, hobjects]
    · rw [setEntryOffset_objects, setEntryOffset_nodes]
      show _ = (t.nodes _).size
      by_cases heq : obj' = obj
      · rw [heq, Fs.setObject_self, hsize]
        exact hend
      rw [Fs.setObject_of_ne _ _ heq, hobjects, h.agree obj' hobj']
      by_cases hn : (s.objects obj').privateData = (s.objects obj).privateData
      · rcases hsole with hle | hsole
        · rw [hn, hsize, Nat.max_eq_left hle]
        · exact absurd (hsole obj' hobj' hn) heq
      · rw [hother _ hn]

/-- A write that does not end at the end of the file, or makes a file larger that is open
more than once, leaves a descriptor with an old size. -/
theorem syscallWrite_stale {fd : ℤ} {buf : ℕ → UInt8} {count : ℕ} (h : EofInv s)
    (hno : ¬ EofOk heap s (.write fd buf count)) :
    ¬ EofAgree heap (syscallWrite heap s fd buf count).1 := by
  intro hagree
  unfold EofOk at hno
  push Not at hno
  obtain ⟨obj, hopen, hno⟩ := hno
  unfold WriteOk at hno
  dsimp only at hno
  obtain ⟨hgrow, hno⟩ := not_or.mp hno
  obtain ⟨t, result, hw⟩ : ∃ t result, memfsWrite heap s (s.objects obj).privateData buf count
      (s.objects obj).offset = (t, result) := ⟨_, _, rfl⟩
  obtain ⟨-, -, hobjects, hfd, -, -, hother⟩ := memfsWrite_eof h.backed h.tree hw
  rcases memfsWrite_result hw with ⟨hlt, hheap, -, -⟩ | ⟨-, rfl, hsize⟩
  · exact hgrow ⟨hlt, hheap⟩
  rw [syscallWrite_eq hopen hw] at hagree
  by_cases hpos : 0 < toSigned 32 count
  swap
  · -- the file grew, and the file object was not told
    rw [if_neg hpos] at hagree hno
    obtain ⟨heq, -⟩ := hagree fd obj (by rw [openObject_congr hfd]; exact hopen)
    rw [hobjects, hsize, h.agree obj ⟨fd, hopen⟩] at heq
    omega
  rw [if_pos hpos] at hagree hno
  obtain ⟨e, he⟩ : ∃ e, wrap 64 ((s.objects obj).offset + (toSigned 32 count).toNat) = e := ⟨_, rfl⟩
  rw [he] at hagree hno
  have hobj : ∀ fd' obj', openObject s fd' = some obj' →
      ((t.setObject obj (·.wrote e)).objects obj').size =
        (t.nodes ((t.setObject obj (·.wrote e)).objects obj').privateData).size := by
    intro fd' obj' hopen'
    refine (hagree fd' obj' ?_).1
    rw [openObject_setEntryOffset]
    rw [← openObject_congr hfd] at hopen'
    exact hopen'
  have hself := hobj fd obj hopen
  rw [Fs.setObject_self, hobjects] at hself
  have hend : e = max (s.nodes (s.objects obj).privateData).size (wrap 64 ((s.objects obj).offset + count)) :=
    hself.trans hsize
  -- so another descriptor of the file has the old size
  have hmore := not_or.mp fun hc => hno ⟨hend, hc⟩
  obtain ⟨hgt, hmore⟩ := hmore
  push Not at hmore
  obtain ⟨obj', ⟨fd', hopen'⟩, hnode, hne⟩ := hmore
  have hold := hobj fd' obj' hopen'
  rw [Fs.setObject_of_ne _ _ hne, hobjects, hnode, hsize, h.agree obj' ⟨fd', hopen'⟩, hnode] at hold
  omega

/-! ### Seeking, reading and closing -/

/-- A seek that does not extend the file, or has no memory to, keeps the sizes. -/
theorem seekExtend_size {newOffset : ℕ} (hnew : newOffset < 2 ^ 64)
    (hok : newOffset ≤ (s.objects obj).size ∨ newOffset ≤ (s.objects obj).offset ∨
      heap s.allocs = none) (m : ℕ) :
    ((seekExtend heap s obj newOffset).1.nodes m).size = (s.nodes m).size := by
  unfold seekExtend
  split
  swap
  · rfl
  rename_i hlt
  rcases hok with hle | hle | hheap
  · omega
  · rw [Nat.sub_eq_zero_of_le hle]
    rfl
  · exact extendFile_size_eq hnew (.inl hheap) m

theorem seekExtend_same (heap : Allocator) (s : Fs) (obj newOffset : ℕ) :
    SameButFile (seekExtend heap s obj newOffset).1 s obj := by
  unfold seekExtend
  split
  · exact extendFile_same ..
  · exact .refl s obj

/-- What a seek leaves of the table and of the file objects. -/
theorem syscallLseek_frame (heap : Allocator) {fd offset whence : ℤ} {newOffset : ℕ}
    (h : openObject s fd = some obj)
    (hnew : seekTarget (s.objects obj) offset whence = some newOffset) :
    (∀ fd', openObject (syscallLseek heap s fd offset whence).1 fd' = openObject s fd') ∧
      (∀ o, ((syscallLseek heap s fd offset whence).1.objects o).size = (s.objects o).size ∧
        ((syscallLseek heap s fd offset whence).1.objects o).privateData =
          (s.objects o).privateData) ∧
        (syscallLseek heap s fd offset whence).1.nextObject = s.nextObject ∧
          (syscallLseek heap s fd offset whence).1.nextNode = s.nextNode := by
  have hsame := seekExtend_same heap s obj newOffset
  have hold : ∀ o, ((seekExtend heap s obj newOffset).1.objects o).size = (s.objects o).size ∧
      ((seekExtend heap s obj newOffset).1.objects o).privateData =
        (s.objects o).privateData := by
    intro o
    by_cases ho : o = obj
    · rw [ho]
      exact ⟨hsame.size, hsame.privateData⟩
    · rw [hsame.other o ho]
      exact ⟨rfl, rfl⟩
  rw [syscallLseek_eq heap h hnew]
  split
  · refine ⟨fun fd' => ?_, fun o => ?_, hsame.nextObject, hsame.nextNode⟩
    · rw [openObject_setEntryOffset]
      exact openObject_congr hsame.fdTable fd'
    · rw [setEntryOffset_objects]
      by_cases ho : o = obj
      · rw [ho, Fs.setObject_self]
        exact hold obj
      · rw [Fs.setObject_of_ne _ _ ho]
        exact hold o
  · exact ⟨openObject_congr hsame.fdTable, hold, hsame.nextObject, hsame.nextNode⟩

theorem syscallLseek_eof {fd offset whence : ℤ} (h : EofInv s)
    (hok : EofOk heap s (.lseek fd offset whence)) :
    EofInv (syscallLseek heap s fd offset whence).1 := by
  have hback : Backed (syscallLseek heap s fd offset whence).1 :=
    syscallLseek_backed heap fd offset whence h.backed
  rcases syscallLseek_cases heap s fd offset whence with hno | ⟨obj, newOffset, hopen, hnew⟩
  · rw [hno]
    exact h
  obtain ⟨hfd, hobjects, hobj, hnode⟩ := syscallLseek_frame heap hopen hnew
  refine h.of_open hback (syscallLseek_treeOk h.tree) hobj hnode.ge
    (fun obj' ⟨fd', hobj'⟩ => ⟨fd', (hfd fd').symm.trans hobj'⟩) (fun obj' _ => (hobjects obj').2)
    fun obj' hobj' => ?_
  rw [(hobjects obj').1, syscallLseek_nodes heap hopen hnew,
    seekExtend_size (seekTarget_lt hnew) (hok obj newOffset hopen hnew)]
  exact h.agree obj' hobj'

/-- A seek that makes the file larger leaves the file object with the old size. -/
theorem syscallLseek_stale {fd offset whence : ℤ} (h : EofInv s)
    (hno : ¬ EofOk heap s (.lseek fd offset whence)) :
    ¬ EofAgree heap (syscallLseek heap s fd offset whence).1 := by
  intro hagree
  unfold EofOk at hno
  push Not at hno
  obtain ⟨obj, newOffset, hopen, hnew, hsize, hoffset, hheap⟩ := hno
  obtain ⟨hfd, hobjects, -, -⟩ := syscallLseek_frame heap hopen hnew
  obtain ⟨heq, -⟩ := hagree fd obj (by rw [hfd]; exact hopen)
  rw [(hobjects obj).1, (hobjects obj).2, syscallLseek_nodes heap hopen hnew] at heq
  unfold seekExtend at heq
  rw [if_pos hsize] at heq
  have hagree₀ := h.agree obj ⟨fd, hopen⟩
  have hgrow := extendFile_size_lt (seekTarget_lt hnew) le_rfl hoffset (by rw [← hagree₀]; exact hsize)
    hheap
  omega

theorem syscallRead_eof {fd : ℤ} {count : ℕ} (h : EofInv s) :
    EofInv (syscallRead s fd count).1 := by
  have hback : Backed (syscallRead s fd count).1 := h.backed.congr (syscallRead_nodes s fd count)
  have htree : TreeOk (syscallRead s fd count).1 :=
    syscallRead_treeOk fd count h.tree
  unfold syscallRead at hback htree ⊢
  split
  · exact h
  rename_i obj hopen
  rw [hopen] at hback htree
  dsimp only at hback htree ⊢
  split
  swap
  · exact h
  rename_i hpos
  rw [if_pos hpos] at hback htree
  refine h.of_open hback htree rfl le_rfl (fun obj' ⟨fd', hobj'⟩ => ⟨fd', ?_⟩) (fun obj' _ => ?_)
    fun obj' hobj' => ?_
  · rw [openObject_setEntryOffset] at hobj'
    exact hobj'
  · rw [setEntryOffset_objects]
    by_cases heq : obj' = obj
    · rw [heq, Fs.setObject_self]
    · rw [Fs.setObject_of_ne _ _ heq]
  · refine Eq.trans ?_ (h.agree obj' hobj')
    rw [setEntryOffset_objects]
    by_cases heq : obj' = obj
    · rw [heq, Fs.setObject_self]
    · rw [Fs.setObject_of_ne _ _ heq]

theorem syscallClose_eof {fd : ℤ} (h : EofInv s) : EofInv (syscallClose s fd).1 := by
  have htree : TreeOk (syscallClose s fd).1 :=
    syscallClose_treeOk fd h.tree
  unfold syscallClose at htree ⊢
  split
  · exact h
  rename_i hopen
  rw [hopen] at htree
  have hframe : (fdFree s fd).nodes = s.nodes ∧ (fdFree s fd).objects = s.objects ∧
      (fdFree s fd).nextObject = s.nextObject ∧ (fdFree s fd).nextNode = s.nextNode := by
    unfold fdFree
    split <;> exact ⟨rfl, rfl, rfl, rfl⟩
  obtain ⟨hnodes, hobjects, hobj, hnode⟩ := hframe
  refine h.of_open (h.backed.congr hnodes) htree hobj hnode.ge
    (fun obj' ⟨fd', hobj'⟩ => ⟨fd', openObject_fdFree hobj'⟩) (fun obj' _ => by rw [hobjects])
    fun obj' hobj' => ?_
  rw [hobjects, hnodes]
  exact h.agree obj' hobj'

/-! ### Runs -/

theorem fileStep_eof {c : FileCall} (h : EofInv s) (hok : EofOk heap s c)
    (hs : fileStep heap s c = some s') : EofInv s' := by
  cases c with
  | «open» path flags mode => exact Option.some.inj hs ▸ syscallOpen_eof h hok
  | close fd => exact Option.some.inj hs ▸ syscallClose_eof h
  | read fd count => exact Option.some.inj hs ▸ syscallRead_eof h
  | write fd buf count => exact Option.some.inj hs ▸ syscallWrite_eof h hok
  | lseek fd offset whence => exact Option.some.inj hs ▸ syscallLseek_eof h hok

theorem fileStep_stale {c : FileCall} (h : EofInv s) (hno : ¬ EofOk heap s c)
    (hs : fileStep heap s c = some s') : ¬ EofAgree heap s' := by
  cases c with
  | «open» path flags mode => exact Option.some.inj hs ▸ syscallOpen_stale h hno
  | close fd => exact absurd trivial hno
  | read fd count => exact absurd trivial hno
  | write fd buf count => exact Option.some.inj hs ▸ syscallWrite_stale h hno
  | lseek fd offset whence => exact Option.some.inj hs ▸ syscallLseek_stale h hno

theorem fsInit_eof (h : fsInit heap = some s) : EofInv s := by
  have hnone : ∀ obj, ¬ IsOpen s obj := by
    rintro obj ⟨fd, hfd⟩
    have hentry := (openObject_iff.mp hfd).2
    rw [fsInit_fdTable h] at hentry
    cases hentry
  exact ⟨fsInit_backed h, fsInit_treeOk h, fun obj ho => absurd ho (hnone obj),
    fun obj ho => absurd ho (hnone obj), fun obj ho => absurd ho (hnone obj)⟩

end PrismaticOS.Kernel
