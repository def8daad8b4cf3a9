import PrismaticOS.Kernel.FsReads
import PrismaticOS.Kernel.FsSize
import PrismaticOS.Kernel.FsWrites
import PrismaticOS.Library.SharedFiles

/-!
# Files and the places of descriptors

Runs of `syscall_open`, `syscall_close`, `syscall_read`, `syscall_write` and `syscall_lseek` of
`kernel/fs.c`, against what they are for: files that are sequences of bytes, and descriptors that
are places in them.

## The model

`files` is what a file system holds, in the terms of `Library.Files`; `opOf` is what a call is to do.
A call that returns -1 is to do nothing, but for an `O_TRUNC` that empties the file before there is
a descriptor.

## What is proved

* `fileStep_files` — a call that is `Tame` does what it is to do.
* `cursors_refine` — so does every run of such calls from `fs_init`, and reads what it is to read.
* `pieces_read_back` — what one descriptor writes in pieces, another one reads.
-/

namespace PrismaticOS.Kernel

open PrismaticOS.Library

/-! ### What is there, and what is to be done -/

/-- The bytes of a file. -/
def fileBytes (s : Fs) (node : ℕ) : List UInt8 :=
  match (s.nodes node).privateData with
  | none => []
  | some data => (List.range (s.nodes node).size).map data.bytes

/-- Where a descriptor is. -/
def cursorOf (s : Fs) (fd : ℤ) : Option (ℕ × ℕ) :=
  (openObject s fd).map fun obj => ((s.objects obj).privateData, (s.objects obj).offset)

/-- The files and the places of the descriptors. -/
def files (s : Fs) : Files ℕ ℤ UInt8 :=
  ⟨fun node => if node < s.nextNode then fileBytes s node else [], cursorOf s⟩

/-- What `syscall_open` is to do, where the path leads to `node`, or to a file that is made. -/
def openOp (result : ℤ) (node : ℕ) (emptied : Bool) : FileOp ℕ ℤ UInt8 :=
  if result = -1 then if emptied then .empty node else .skip else .open result node emptied

/-- What a call is to do. -/
def opOf (heap : Allocator) (s : Fs) (c : FileCall) : FileOp ℕ ℤ UInt8 :=
  match c with
  | .open path flags _ =>
    match fsLookup s path with
    | some node => openOp (fileCall heap s c).2 node
        (flags &&& oTrunc ≠ 0 ∧ (s.nodes node).isDir = false)
    | none => openOp (fileCall heap s c).2 s.nextNode false
  | .close fd => if (fileCall heap s c).2 = -1 then .skip else .close fd
  | .read fd count => if (fileCall heap s c).2 = -1 then .skip else .read fd count
  | .write fd buf count =>
    if (fileCall heap s c).2 = -1 then .skip else .write fd ((List.range count).map buf)
  | .lseek fd _ _ =>
    if (fileCall heap s c).2 = -1 then .skip else .seek fd (fileCall heap s c).2.toNat

/-- The bytes that a call reads. -/
def bytesRead (s : Fs) : FileCall → List UInt8
  | .read fd count =>
    (List.range (syscallRead s fd count).2.copied).map (syscallRead s fd count).2.bytes
  | _ => []

/-- The calls that do what they are to do: sums of an offset and a count do not wrap, a write begins
in the file and ends before 2³¹, and a seek does not extend the file. -/
def Tame (s : Fs) : FileCall → Prop
  | .open .. => True
  | .close _ => True
  | .read fd count => ∀ obj, openObject s fd = some obj → (s.objects obj).offset + count < 2 ^ 64
  | .write fd _ count => ∀ obj, openObject s fd = some obj →
      (s.objects obj).offset ≤ (s.nodes (s.objects obj).privateData).size ∧
        (s.objects obj).offset + count < 2 ^ 31
  | .lseek fd offset whence => ∀ obj newOffset, openObject s fd = some obj →
      seekTarget (s.objects obj) offset whence = some newOffset →
        newOffset < 2 ^ 63 ∧
          (newOffset ≤ (s.objects obj).size ∨ newOffset ≤ (s.objects obj).offset)

/-- What holds in every state of a run of such calls. -/
structure CursorsOk (s : Fs) : Prop where
  /-- A file without memory is empty. -/
  backed : Backed s
  /-- The tree. -/
  tree : TreeOk s
  /-- The descriptors. -/
  descriptors : DescriptorsOk s
  /-- The files are open that were made. -/
  node_lt : ∀ fd node pos, cursorOf s fd = some (node, pos) → node < s.nextNode
  /-- The files are small. -/
  length_lt : ∀ node, ((files s).contents node).length < 2 ^ 31

variable {heap : Allocator} {s s' : Fs} {fd : ℤ} {obj node count offset : ℕ} {buf : ℕ → UInt8}

/-! ### The bytes of a file -/

theorem files_contents (h : node < s.nextNode) : (files s).contents node = fileBytes s node :=
  if_pos h

theorem length_fileBytes (hb : Backed s) (node : ℕ) :
    (fileBytes s node).length = (s.nodes node).size := by
  unfold fileBytes
  cases hdata : (s.nodes node).privateData with
  | none => exact (hb.empty node hdata).symm
  | some data => simp

/-- The bytes are those of the buffer. -/
theorem getElem?_fileBytes (hb : Backed s) {i : ℕ} (hi : i < (s.nodes node).size) :
    (fileBytes s node)[i]? = byteAt s node i := by
  unfold fileBytes byteAt
  cases hdata : (s.nodes node).privateData with
  | none =>
    rw [hb.empty node hdata] at hi
    exact absurd hi (Nat.not_lt_zero i)
  | some data => simp [hi]

/-- Two nodes with one size and the same bytes are files with the same bytes. -/
theorem fileBytes_congr (h : (s'.nodes node).size = (s.nodes node).size)
    (hdata : (s'.nodes node).privateData = (s.nodes node).privateData) :
    fileBytes s' node = fileBytes s node := by
  rw [fileBytes, fileBytes, h, hdata]

/-- **A write** puts its bytes into the file. -/
theorem memfsWrite_fileBytes (hb : Backed s) (hle : offset ≤ (s.nodes node).size)
    (hlt : offset + count < 2 ^ 64)
    (hmemory : (s.nodes node).size < offset + count → heap s.allocs ≠ none) :
    fileBytes (memfsWrite heap s node buf count offset).1 node =
      splice (fileBytes s node) offset ((List.range count).map buf) := by
  have hb' : Backed (memfsWrite heap s node buf count offset).1 := memfsWrite_backed hb
  have hlen : offset ≤ (fileBytes s node).length := hle.trans (length_fileBytes hb node).ge
  have hsize : ((memfsWrite heap s node buf count offset).1.nodes node).size =
      max (s.nodes node).size (offset + count) := by
    rw [memfsWrite_size, wrap_of_lt hlt]
    split_ifs with hheap
    · have hin := mt hmemory (not_not.mpr hheap)
      omega
    · rfl
  apply List.ext_getElem?
  intro i
  rw [getElem?_splice hlen, List.length_map, List.length_range]
  by_cases hi : i < max (s.nodes node).size (offset + count)
  swap
  · rw [List.getElem?_eq_none (by rw [length_fileBytes hb', hsize]; omega), if_neg (by omega),
      if_neg (by omega), List.getElem?_eq_none (by rw [length_fileBytes hb]; omega)]
  rw [getElem?_fileBytes hb' (by omega)]
  have hi64 : i < 2 ^ 64 := by
    have := hb.size_lt node
    omega
  -- the byte is one of the new ones, or one of the old ones
  have hbyte : byteAt (memfsWrite heap s node buf count offset).1 node i =
      if offset ≤ i ∧ i < offset + count then some (buf (i - offset)) else byteAt s node i := by
    rcases memfsWrite_cases heap s node buf count offset with
      ⟨hgrow, hheap, -⟩ | ⟨memory, hgrow, -, hw⟩ | ⟨hin, hw⟩
    · rw [wrap_of_lt hlt] at hgrow
      exact absurd hheap (hmemory hgrow)
    · rw [hw, byteAt, Fs.setNode_self]
      show some (((growBuffer (s.nodes node) _ memory).store offset count buf).bytes i) = _
      rw [wrap_of_lt hlt, written_bytes (hb.empty node) hlt hi64]
      by_cases hnew : offset ≤ i ∧ i < offset + count
      · rw [if_pos hnew, if_pos hnew]
      · rw [if_neg hnew, if_neg hnew, if_pos (by omega), byteAt]
    · rw [wrap_of_lt hlt] at hin
      have hsome : (s.nodes node).privateData ≠ none := fun hnone => by
        have := hb.empty node hnone
        omega
      obtain ⟨data, hdata⟩ := Option.ne_none_iff_exists'.mp hsome
      rw [hw, byteAt, Fs.setNode_self, byteAt, hdata]
      simp only [Option.map_some, store_bytes _ _ hi64 hlt]
      split <;> rfl
  rw [hbyte]
  by_cases hbefore : i < offset
  · rw [if_pos hbefore, if_neg (by omega), getElem?_fileBytes hb (by omega)]
  rw [if_neg hbefore]
  by_cases hnew : i < offset + count
  · rw [if_pos hnew, if_pos (by omega), List.getElem?_map, List.getElem?_range (by omega),
      Option.map_some]
  · rw [if_neg hnew, if_neg (by omega), getElem?_fileBytes hb (by omega)]

/-- **A read** copies bytes of the file. -/
theorem memfsRead_fileBytes (hb : Backed s) (hsize : (fileBytes s node).length < 2 ^ 31)
    (hlt : offset + count < 2 ^ 64) (hdata : (s.nodes node).privateData ≠ none) :
    (List.range (memfsRead s node count offset).copied).map (memfsRead s node count offset).bytes =
        ((fileBytes s node).drop offset).take count ∧
      (memfsRead s node count offset).result = (((fileBytes s node).drop offset).take count).length := by
  have hlen := length_fileBytes hb node
  rw [hlen] at hsize
  rcases memfsRead_cases s node count offset with
    ⟨hnone, -⟩ | ⟨-, hend, hread⟩ | ⟨data, toRead, hsome, hin, htoRead, hread⟩
  · exact absurd hnone hdata
  · rw [hread, List.drop_eq_nil_of_le (by omega)]
    simp
  · rw [(toRead_iff hsize (by omega) hin).mpr hlt] at htoRead
    have hend : offset + toRead ≤ (s.nodes node).size := by
      rw [htoRead, readable]
      omega
    have hcopied : toRead = (((fileBytes s node).drop offset).take count).length := by
      rw [htoRead, readable, List.length_take, List.length_drop]
      omega
    rw [hread]
    refine ⟨?_, by
      rw [← hcopied]
      exact toSigned_eq_self_iff.mpr (by omega)⟩
    apply List.ext_getElem
    · simpa using hcopied
    · intro i h₁ h₂
      have hi : i < toRead := by simpa using h₁
      simp only [List.getElem_map, List.getElem_range, List.getElem_take, List.getElem_drop]
      rw [wrap_of_lt (by omega)]
      have hbyte := getElem?_fileBytes hb (show offset + i < (s.nodes node).size by omega)
      rw [byteAt, hsome, Option.map_some, List.getElem?_eq_some_iff] at hbyte
      exact hbyte.2.symm

/-! ### Reading, writing and seeking -/

/-- The descriptors stay open on their file objects. -/
theorem Accessed.openObject_eq (h : Accessed s' s fd) (b : ℤ) : openObject s' b = openObject s b := by
  have hslot : ∀ i, (s'.fdTable i).bind FileDescriptor.fileObject =
      (s.fdTable i).bind FileDescriptor.fileObject := by
    intro i
    have hboth := h.slots i
    cases hnew : s'.fdTable i <;> cases hold : s.fdTable i <;> simp_all
  refine Option.ext fun obj => ?_
  rw [openObject_iff, openObject_iff, hslot]

/-- An access moves its own descriptor only. -/
theorem Accessed.cursors (h : Accessed s' s fd) (hok : DescriptorsOk s)
    (hopen : openObject s fd = some obj) :
    cursorOf s' = Function.update (cursorOf s) fd
      (some ((s'.objects obj).privateData, (s'.objects obj).offset)) := by
  funext b
  rw [cursorOf, h.openObject_eq]
  by_cases hb : b = fd
  · rw [hb, Function.update_self, hopen, Option.map_some]
  · rw [Function.update_of_ne hb, cursorOf]
    cases hobj : openObject s b with
    | none => rfl
    | some obj' =>
      have hne : openObject s fd ≠ some obj' := by
        intro hsame
        obtain ⟨hlow, -, entry, he, ho⟩ := openObject_some hobj
        obtain ⟨hlow', -, entry', he', ho'⟩ := openObject_some hsame
        exact hok.apart b.toNat fd.toNat entry entry' (by omega) he he' (ho.trans ho'.symm)
      rw [Option.map_some, Option.map_some, h.objects obj' hne]

/-- Where an open descriptor is. -/
theorem files_cursor (hopen : openObject s fd = some obj) :
    (files s).cursor fd = some ((s.objects obj).privateData, (s.objects obj).offset) := by
  show cursorOf s fd = _
  rw [cursorOf, hopen, Option.map_some]

/-- Its file was made, and is small. -/
theorem CursorsOk.opened (h : CursorsOk s) (hopen : openObject s fd = some obj) :
    (s.objects obj).privateData < s.nextNode ∧
      (fileBytes s (s.objects obj).privateData).length < 2 ^ 31 := by
  have hlt := h.node_lt fd _ _ (files_cursor hopen)
  have hsmall := h.length_lt (s.objects obj).privateData
  rw [files_contents hlt] at hsmall
  exact ⟨hlt, hsmall⟩

/-- A read makes no file. -/
theorem syscallRead_nextNode (s : Fs) (fd : ℤ) (count : ℕ) :
    (syscallRead s fd count).1.nextNode = s.nextNode := by
  unfold syscallRead
  split
  · rfl
  · dsimp only
    split <;> rfl

/-- Nor does a write. -/
theorem syscallWrite_nextNode (heap : Allocator) (s : Fs) (fd : ℤ) (buf : ℕ → UInt8) (count : ℕ) :
    (syscallWrite heap s fd buf count).1.nextNode = s.nextNode := by
  cases hopen : openObject s fd with
  | none => rw [syscallWrite_none hopen]
  | some obj =>
    obtain ⟨-, -, -, hnext, -⟩ := memfsWrite_frame heap s (s.objects obj).privateData buf count
      (s.objects obj).offset
    obtain ⟨t, result, hw⟩ : ∃ t result, memfsWrite heap s (s.objects obj).privateData buf count
        (s.objects obj).offset = (t, result) := ⟨_, _, rfl⟩
    rw [hw] at hnext
    rw [syscallWrite_eq hopen hw]
    split <;> exact hnext

/-- What an open descriptor reads: a file without memory has nothing to read. -/
theorem bytesRead_eq (h : CursorsOk s) (htame : Tame s (.read fd count))
    (hopen : openObject s fd = some obj) :
    bytesRead s (.read fd count) = ((files s).step (.read fd count)).2 := by
  obtain ⟨hlt, hsmall⟩ := h.opened hopen
  rw [Files.step_read (files_cursor hopen), files_contents hlt, bytesRead, syscallRead_eq hopen]
  by_cases hdata : (s.nodes (s.objects obj).privateData).privateData = none
  · simp [memfsRead, fileBytes, hdata]
  · exact (memfsRead_fileBytes h.backed hsmall (htame obj hopen) hdata).1

/-- **A read.** -/
theorem syscallRead_files (h : CursorsOk s) (htame : Tame s (.read fd count)) :
    files (syscallRead s fd count).1 = ((files s).step (opOf heap s (.read fd count))).1 ∧
      bytesRead s (.read fd count) = ((files s).step (opOf heap s (.read fd count))).2 := by
  have hcontents : (files (syscallRead s fd count).1).contents = (files s).contents := by
    simp only [files, fileBytes, syscallRead_nodes, syscallRead_nextNode]
  have hfail : (syscallRead s fd count).2 = ⟨-1, 0, fun _ => 0⟩ →
      (syscallRead s fd count).1 = s →
        files (syscallRead s fd count).1 = ((files s).step (opOf heap s (.read fd count))).1 ∧
          bytesRead s (.read fd count) = ((files s).step (opOf heap s (.read fd count))).2 := by
    intro hresult hsame
    have hop : opOf heap s (.read fd count) = .skip := if_pos (by rw [fileCall, hresult])
    rw [hop, hsame, bytesRead, hresult]
    exact ⟨rfl, rfl⟩
  cases hopen : openObject s fd with
  | none =>
    have hcall : syscallRead s fd count = (s, ⟨-1, 0, fun _ => 0⟩) := by
      rw [syscallRead, hopen]
    exact hfail (by rw [hcall]) (by rw [hcall])
  | some obj =>
    have hcall := syscallRead_eq hopen count
    by_cases hdata : (s.nodes (s.objects obj).privateData).privateData = none
    · have hread : memfsRead s (s.objects obj).privateData count (s.objects obj).offset =
          ⟨-1, 0, fun _ => 0⟩ := by
        rw [memfsRead, hdata]
      rw [hread] at hcall
      exact hfail (by rw [hcall]) (by rw [hcall]; rfl)
    obtain ⟨hlt, hsmall⟩ := h.opened hopen
    have hresult := (memfsRead_fileBytes h.backed hsmall (htame obj hopen) hdata).2
    obtain ⟨r, hr⟩ : ∃ r, memfsRead s (s.objects obj).privateData count (s.objects obj).offset = r :=
      ⟨_, rfl⟩
    rw [hr] at hcall hresult
    have hret : (syscallRead s fd count).2 = r := by rw [hcall]
    have hop : opOf heap s (.read fd count) = .read fd count := by
      refine if_neg ?_
      rw [fileCall, hret, hresult]
      omega
    rw [hop]
    refine ⟨?_, bytesRead_eq h htame hopen⟩
    rw [Files.step_read (files_cursor hopen), files_contents hlt]
    refine Files.ext hcontents ?_
    show cursorOf _ = Function.update (cursorOf s) fd _
    rw [(syscallRead_accessed s fd count).cursors h.descriptors hopen]
    congr 2
    -- the offset advances by the number of bytes, which may be none
    obtain ⟨got, hgot⟩ : ∃ got, ((fileBytes s (s.objects obj).privateData).drop
      (s.objects obj).offset).take count = got := ⟨_, rfl⟩
    have hle : got.length ≤ count := hgot ▸ List.length_take_le ..
    have hsum := htame obj hopen
    rw [hgot] at hresult ⊢
    dsimp only at hcall
    rw [hcall, hresult]
    split
    · rw [setEntryOffset_objects, Fs.setObject_self, Int.toNat_natCast, wrap_of_lt (by omega)]
    · rw [show got.length = 0 by omega]
      rfl

/-- **A write.** -/
theorem syscallWrite_files (h : CursorsOk s) (htame : Tame s (.write fd buf count)) :
    files (syscallWrite heap s fd buf count).1 =
      ((files s).step (opOf heap s (.write fd buf count))).1 := by
  cases hopen : openObject s fd with
  | none =>
    have hcall : syscallWrite heap s fd buf count = (s, -1) := syscallWrite_none hopen
    have hop : opOf heap s (.write fd buf count) = .skip := if_pos (by rw [fileCall, hcall])
    rw [hop, hcall]
    rfl
  | some obj =>
    obtain ⟨hle, hend⟩ := htame obj hopen
    obtain ⟨hlt, -⟩ := h.opened hopen
    obtain ⟨t, result, hw⟩ : ∃ t result, memfsWrite heap s (s.objects obj).privateData buf count
        (s.objects obj).offset = (t, result) := ⟨_, _, rfl⟩
    have hcall := syscallWrite_eq hopen hw
    rcases memfsWrite_result hw with ⟨hgrow, hheap, rfl, -⟩ | ⟨hmemory, rfl, -⟩
    · -- there is no memory
      have ht : t = s.tick := by
        rw [memfsWrite] at hw
        simp only [if_pos hgrow, hheap] at hw
        exact (Prod.mk.inj hw).1.symm
      rw [if_neg (by decide)] at hcall
      have hop : opOf heap s (.write fd buf count) = .skip := if_pos (by rw [fileCall, hcall])
      rw [hop, hcall, ht]
      rfl
    have hcount : toSigned 32 count = count := toSigned_eq_self_iff.mpr (by omega)
    rw [hcount] at hcall
    have hret : (syscallWrite heap s fd buf count).2 = count := by
      rw [hcall]
      split <;> rfl
    have hop : opOf heap s (.write fd buf count) = .write fd ((List.range count).map buf) := by
      refine if_neg ?_
      rw [fileCall, hret]
      omega
    have hobjects := (memfsWrite_frame heap s (s.objects obj).privateData buf count
      (s.objects obj).offset).1
    rw [hop, Files.step_write (files_cursor hopen), List.length_map, List.length_range]
    refine Files.ext (funext fun node => ?_) ?_
    · have hnodes := syscallWrite_nodes heap buf count hopen
      show (if node < (syscallWrite heap s fd buf count).1.nextNode then
        fileBytes (syscallWrite heap s fd buf count).1 node else []) =
          Function.update (files s).contents (s.objects obj).privateData _ node
      have hcongr : fileBytes (syscallWrite heap s fd buf count).1 node =
          fileBytes (memfsWrite heap s (s.objects obj).privateData buf count
            (s.objects obj).offset).1 node := by
        rw [fileBytes, fileBytes, hnodes]
      rw [syscallWrite_nextNode, hcongr]
      by_cases hn : node = (s.objects obj).privateData
      · rw [hn, Function.update_self, if_pos hlt, files_contents hlt]
        refine memfsWrite_fileBytes h.backed hle (by omega) fun hgrow hheap => hmemory ⟨?_, hheap⟩
        rwa [wrap_of_lt (by omega)]
      · have hother : fileBytes (memfsWrite heap s (s.objects obj).privateData buf count
            (s.objects obj).offset).1 node = fileBytes s node :=
          fileBytes_congr (by rw [memfsWrite_other hn]) (by rw [memfsWrite_other hn])
        rw [Function.update_of_ne hn, hother]
        rfl
    · show cursorOf _ = Function.update (cursorOf s) fd _
      rw [(syscallWrite_accessed heap s fd buf count).cursors h.descriptors hopen]
      congr 2
      rw [hw] at hobjects
      rw [hcall]
      split
      · rw [setEntryOffset_objects, Fs.setObject_self, Int.toNat_natCast, wrap_of_lt (by omega),
          hobjects]
        rfl
      · rw [show count = 0 by omega, hobjects]
        rfl

/-- **A seek.** -/
theorem syscallLseek_files {whence offset : ℤ} (h : CursorsOk s)
    (htame : Tame s (.lseek fd offset whence)) :
    files (syscallLseek heap s fd offset whence).1 =
      ((files s).step (opOf heap s (.lseek fd offset whence))).1 := by
  rcases syscallLseek_cases heap s fd offset whence with hno | ⟨obj, newOffset, hopen, hnew⟩
  · have hop : opOf heap s (.lseek fd offset whence) = .skip := if_pos (by rw [fileCall, hno])
    rw [hop, hno]
    rfl
  obtain ⟨hlt, hstay⟩ := htame obj newOffset hopen hnew
  have hsame : seekExtend heap s obj newOffset = (s, true) := by
    unfold seekExtend
    split
    · rw [Nat.sub_eq_zero_of_le (hstay.resolve_left (by omega))]
      rfl
    · rfl
  have hcall := syscallLseek_eq heap hopen hnew
  rw [hsame, if_pos rfl, toSigned_eq_self_iff.mpr hlt] at hcall
  have hret : (syscallLseek heap s fd offset whence).2 = newOffset := by rw [hcall]
  have hop : opOf heap s (.lseek fd offset whence) = .seek fd newOffset := by
    have hne : (fileCall heap s (.lseek fd offset whence)).2 ≠ -1 := by
      rw [fileCall, hret]
      omega
    rw [opOf, if_neg hne, fileCall, hret, Int.toNat_natCast]
  rw [hop, Files.step_seek (files_cursor hopen)]
  refine Files.ext ?_ ?_
  · rw [hcall]
    rfl
  · show cursorOf _ = Function.update (cursorOf s) fd _
    rw [(syscallLseek_accessed heap s fd offset whence).cursors h.descriptors hopen, hcall]
    dsimp only
    rw [setEntryOffset_objects, Fs.setObject_self]

/-! ### Opening and closing -/

/-- **Closing.** -/
theorem syscallClose_files (heap : Allocator) (s : Fs) (fd : ℤ) :
    files (syscallClose s fd).1 = ((files s).step (opOf heap s (.close fd))).1 := by
  rcases syscallClose_cases s fd with ⟨-, hcall⟩ | ⟨hlow, hhigh, hcall⟩
  · have hop : opOf heap s (.close fd) = .skip := if_pos (by rw [fileCall, hcall])
    rw [hop, hcall]
    rfl
  have hop : opOf heap s (.close fd) = .close fd := if_neg (by rw [fileCall, hcall]; simp)
  rw [hop, hcall]
  refine Files.ext rfl (funext fun b => ?_)
  show cursorOf (s.setEntry fd.toNat none) b = Function.update (cursorOf s) fd none b
  have hsame : openObject (s.setEntry fd.toNat none) b =
      if b = fd then none else openObject s b := by
    refine Option.ext fun obj => ?_
    rw [openObject_iff]
    split_ifs with hb
    · rw [hb, Fs.setEntry_self]
      simp
    · rw [openObject_iff]
      refine and_congr_right fun hrange => ?_
      rw [Fs.setEntry_of_ne _ _ (by omega)]
  rw [cursorOf, hsame]
  by_cases hb : b = fd
  · rw [if_pos hb, hb, Function.update_self]
    rfl
  · rw [if_neg hb, Function.update_of_ne hb]
    rfl

/-- A descriptor for a node is opened at its beginning, or nothing happens. -/
theorem openNode_files (heap : Allocator) (hok : DescriptorsOk s) (node : ℕ) :
    ((openNode heap s node).2 = -1 ∧ files (openNode heap s node).1 = files s) ∨
      ∃ i : ℕ, (openNode heap s node).2 = i ∧
        files (openNode heap s node).1 = (files s).move i (some (node, 0)) := by
  rcases openNode_cases heap s node with ⟨-, ho⟩ | ⟨-, hr, ho⟩ | ⟨i, hslot, hr, ho⟩
  · rw [ho]
    exact .inl ⟨rfl, rfl⟩
  · refine .inl ⟨hr, Files.ext ?_ ?_⟩
    · simp only [files, fileBytes, ho.nodes, ho.nextNode]
    · show cursorOf _ = cursorOf s
      funext b
      rw [cursorOf, openObject_congr ho.fdTable, ho.objects]
      rfl
  · refine .inr ⟨i, hr, Files.ext ?_ (funext fun b => ?_)⟩
    · simp only [files, fileBytes, ho.nodes, ho.nextNode]
      rfl
    show cursorOf _ b = Function.update (cursorOf s) (i : ℤ) _ b
    by_cases hb : b = i
    · have hopen : openObject (openNode heap s node).1 b = some s.nextObject := by
        have hi := (freeSlot_spec hslot).1
        refine openObject_iff.mpr ⟨by omega, ?_⟩
        rw [ho.fdTable, hb, Int.toNat_natCast, Function.update_self]
        rfl
      rw [cursorOf, hopen, Option.map_some, ho.objects, Function.update_self, hb,
        Function.update_self]
    · have hsame : openObject (openNode heap s node).1 b = openObject s b := by
        refine Option.ext fun obj => ?_
        rw [openObject_iff, openObject_iff]
        refine and_congr_right fun hrange => ?_
        rw [ho.fdTable, Function.update_of_ne (by omega)]
      rw [Function.update_of_ne hb, cursorOf, hsame, cursorOf]
      cases hobj : openObject s b with
      | none => rfl
      | some obj =>
        obtain ⟨-, -, entry, he, hentry⟩ := openObject_some hobj
        obtain ⟨obj', hlt, hobj'⟩ := hok.object _ entry he
        obtain rfl := Option.some.inj (hentry.symm.trans hobj')
        rw [Option.map_some, Option.map_some, ho.objects, Function.update_of_ne hlt.ne]

/-- A node that is made is empty. -/
theorem created_files (s : Fs) (parent : ℕ) (name : List UInt8) (mode : ℕ) :
    files (created s parent name mode) = files s := by
  refine Files.ext (funext fun m => ?_) rfl
  show (if m < s.nextNode + 1 then fileBytes (created s parent name mode) m else []) =
    if m < s.nextNode then fileBytes s m else []
  by_cases hm : m = s.nextNode
  · obtain ⟨-, -, -, hdata⟩ := created_new s parent name mode
    rw [if_pos (by omega), if_neg (by omega), fileBytes, hm, hdata]
  · have hold : fileBytes (created s parent name mode) m = fileBytes s m :=
      fileBytes_congr (by rw [created_old hm]) (by rw [created_old hm])
    rw [hold]
    exact if_congr (by omega) rfl rfl

/-- A file that is truncated is empty. -/
theorem truncate_files (s : Fs) (node flags : ℕ) :
    files (truncate s node flags) = if flags &&& oTrunc ≠ 0 then (files s).empty node else files s := by
  by_cases htrunc : flags &&& oTrunc = 0
  · rw [truncate, if_neg fun h => h.1 htrunc, if_neg (not_not.mpr htrunc)]
  rw [if_pos htrunc]
  refine Files.ext (funext fun m => ?_) ?_
  · show (if m < (truncate s node flags).nextNode then fileBytes (truncate s node flags) m else []) =
      Function.update (files s).contents node [] m
    rw [(truncate_frame s node flags).2.1]
    by_cases hm : m = node
    · have hempty : ((truncate s node flags).nodes node).privateData = none := by
        unfold truncate
        split
        · rw [Fs.setNode_self]
        · rename_i hno
          simpa [htrunc] using hno
      rw [hm, Function.update_self, fileBytes, hempty, ite_self]
    · have hold : fileBytes (truncate s node flags) m = fileBytes s m :=
        fileBytes_congr (by rw [truncate_size s hm]) (by rw [truncate_size s hm])
      rw [Function.update_of_ne hm, hold]
      rfl
  · unfold truncate
    split <;> rfl

theorem truncate_descriptorsOk (hok : DescriptorsOk s) (node flags : ℕ) :
    DescriptorsOk (truncate s node flags) := by
  unfold truncate
  split
  · exact ⟨hok.number, hok.object, hok.apart⟩
  · exact hok

/-- **Opening.** -/
theorem syscallOpen_files (heap : Allocator) (hok : DescriptorsOk s) (path : List UInt8)
    (flags mode : ℕ) : files (syscallOpen heap s path flags mode).1 =
      ((files s).step (opOf heap s (.open path flags mode))).1 := by
  rcases syscallOpen_cases heap s path flags mode with
    ⟨hwhy, ho⟩ | ⟨hnone, -, -, -, ho⟩ | ⟨parent, name, memory, hnone, -, -, -, ho⟩ | ⟨node, hfound, hdir, ho⟩
  · have hop : opOf heap s (.open path flags mode) = .skip := by
      rw [opOf, fileCall, ho]
      rcases hwhy with ⟨hnone, -⟩ | ⟨node, hfound, hdir⟩
      · simp [hnone, openOp]
      · simp [hfound, hdir, openOp]
    rw [hop, ho]
    rfl
  · have hop : opOf heap s (.open path flags mode) = .skip := by
      rw [opOf, fileCall, ho]
      simp [hnone, openOp]
    rw [hop, ho]
    rfl
  · have hmade : DescriptorsOk (created s parent name (sIfreg ||| (mode &&& 0o777))) :=
      ⟨hok.number, hok.object, hok.apart⟩
    have hcall : opOf heap s (.open path flags mode) =
        openOp (syscallOpen heap s path flags mode).2 s.nextNode false := by
      rw [opOf, hnone, fileCall]
    rw [hcall, ho]
    rcases openNode_files heap hmade s.nextNode with ⟨hr, hfiles⟩ | ⟨i, hr, hfiles⟩
    · rw [hr, hfiles, created_files]
      rfl
    · have hop : openOp (i : ℤ) s.nextNode false = .open i s.nextNode false := if_neg (by omega)
      rw [hr, hfiles, created_files, hop]
      rfl
  · have hcall : opOf heap s (.open path flags mode) =
        openOp (syscallOpen heap s path flags mode).2 node (flags &&& oTrunc ≠ 0) := by
      rw [opOf, hfound, fileCall]
      simp only [hdir, and_true]
    rw [hcall, ho]
    rcases openNode_files heap (truncate_descriptorsOk hok node flags) node with
      ⟨hr, hfiles⟩ | ⟨i, hr, hfiles⟩
    · rw [hr, hfiles, truncate_files, openOp, if_pos rfl]
      by_cases htrunc : flags &&& oTrunc = 0 <;> simp [htrunc, Files.step]
    · have hop : openOp (i : ℤ) node (flags &&& oTrunc ≠ 0) = .open i node (flags &&& oTrunc ≠ 0) :=
        if_neg (by omega)
      rw [hr, hfiles, truncate_files, hop, Files.step]
      simp only [decide_eq_true_eq]

/-! ### The invariant -/

theorem fileStep_eq (heap : Allocator) (s : Fs) (c : FileCall) :
    fileStep heap s c = some (fileCall heap s c).1 := by
  cases c <;> rfl

/-- Opening neither reads nor writes. -/
theorem opOf_open (heap : Allocator) (s : Fs) (path : List UInt8) (flags mode : ℕ) :
    (∀ d n, opOf heap s (.open path flags mode) ≠ .read d n) ∧
      ∀ d data, opOf heap s (.open path flags mode) ≠ .write d data := by
  have hop : ∀ r node e, (∀ d n, openOp r node e ≠ .read d n) ∧
      ∀ d data, openOp r node e ≠ .write d data := by
    intro r node e
    unfold openOp
    split_ifs <;> simp
  rw [opOf]
  split <;> exact hop _ _ _

/-- **A call does what it is to do**, and reads what it is to read. -/
theorem fileStep_files (heap : Allocator) {c : FileCall} (h : CursorsOk s) (htame : Tame s c) :
    files (fileCall heap s c).1 = ((files s).step (opOf heap s c)).1 ∧
      bytesRead s c = ((files s).step (opOf heap s c)).2 := by
  cases c with
  | «open» path flags mode =>
    refine ⟨syscallOpen_files heap h.descriptors path flags mode, (Files.step_nothing ?_).symm⟩
    exact (opOf_open heap s path flags mode).1
  | close fd =>
    refine ⟨syscallClose_files heap s fd, (Files.step_nothing fun d count => ?_).symm⟩
    rw [opOf]
    split <;> simp
  | read fd count => exact syscallRead_files h htame
  | write fd buf count =>
    refine ⟨syscallWrite_files h htame, (Files.step_nothing fun d count => ?_).symm⟩
    rw [opOf]
    split <;> simp
  | lseek fd offset whence =>
    refine ⟨syscallLseek_files h htame, (Files.step_nothing fun d count => ?_).symm⟩
    rw [opOf]
    split <;> simp

theorem fileCall_descriptorsOk (heap : Allocator) (h : DescriptorsOk s) (c : FileCall) :
    DescriptorsOk (fileCall heap s c).1 := by
  cases c with
  | «open» path flags mode =>
    rcases syscallOpen_table heap s path flags mode with ⟨-, hsame⟩ | ⟨i, -, hopened⟩
    · exact hsame.descriptorsOk h
    · exact hopened.descriptorsOk h
  | close fd =>
    rw [fileCall]
    rcases syscallClose_cases s fd with ⟨-, hcall⟩ | ⟨-, -, hcall⟩
    · rw [hcall]
      exact h
    · rw [hcall]
      exact setEntry_none_descriptorsOk h _
  | read fd count => exact (syscallRead_accessed s fd count).descriptorsOk h
  | write fd buf count => exact (syscallWrite_accessed heap s fd buf count).descriptorsOk h
  | lseek fd offset whence => exact (syscallLseek_accessed heap s fd offset whence).descriptorsOk h

/-- Nodes are made, and never taken away. -/
theorem fileCall_nextNode_le (heap : Allocator) (s : Fs) (c : FileCall) :
    s.nextNode ≤ (fileCall heap s c).1.nextNode := by
  cases c with
  | «open» path flags mode =>
    refine syscallOpen_rule (fun t => s.nextNode ≤ t.nextNode) (fun t ht => ht) (fun t _ _ _ ht => ?_)
      (fun t node flags ht => ?_) (fun t node ht => ?_) path flags mode le_rfl
    · exact Nat.le_succ_of_le ht
    · rw [(truncate_frame t node flags).2.1]
      exact ht
    · rw [(openNode_frame heap t node).2]
      exact ht
  | close fd =>
    rw [fileCall, syscallClose, fdFree]
    split
    · exact le_rfl
    · split <;> exact le_rfl
  | read fd count => exact (syscallRead_nextNode s fd count).ge
  | write fd buf count => exact (syscallWrite_nextNode heap s fd buf count).ge
  | lseek fd offset whence =>
    rw [fileCall]
    rcases syscallLseek_cases heap s fd offset whence with hno | ⟨obj, newOffset, hopen, hnew⟩
    · rw [hno]
    · exact (syscallLseek_frame heap hopen hnew).2.2.2.ge

/-- A descriptor is opened on a file that was made. -/
theorem opOf_open_lt (h : TreeOk s) {c : FileCall} {d : ℤ} {emptied : Bool}
    (hop : opOf heap s c = .open d node emptied) : node < (fileCall heap s c).1.nextNode := by
  have hnode : ∀ r n e, openOp r n e = .open d node emptied → n = node := by
    intro r n e h
    unfold openOp at h
    split_ifs at h
    exact (FileOp.open.inj h).2.1
  cases c with
  | «open» path flags mode =>
    cases hfound : fsLookup s path with
    | some n =>
      rw [opOf, hfound] at hop
      obtain rfl := hnode _ _ _ hop
      exact (fsLookup_lt h hfound).trans_le (fileCall_nextNode_le heap s _)
    | none =>
      rw [opOf, hfound] at hop
      obtain rfl := hnode _ _ _ hop
      -- there is a descriptor, so the file was made
      rcases syscallOpen_cases heap s path flags mode with
        ⟨-, ho⟩ | ⟨-, -, -, -, ho⟩ | ⟨parent, name, memory, -, -, -, -, ho⟩ | ⟨n, hsome, -, -⟩
      · rw [fileCall, ho] at hop
        simp [openOp] at hop
      · rw [fileCall, ho] at hop
        simp [openOp] at hop
      · rw [fileCall, ho, (openNode_frame heap _ _).2]
        exact Nat.lt_succ_self _
      · rw [hfound] at hsome
        cases hsome
  | close fd =>
    rw [opOf] at hop
    split at hop <;> cases hop
  | read fd count =>
    rw [opOf] at hop
    split at hop <;> cases hop
  | write fd buf count =>
    rw [opOf] at hop
    split at hop <;> cases hop
  | lseek fd offset whence =>
    rw [opOf] at hop
    split at hop <;> cases hop

/-- A write that is tame begins in the file and ends before 2³¹. -/
theorem opOf_write_lt (h : CursorsOk s) {c : FileCall} (htame : Tame s c) {d : ℤ} {data : List UInt8}
    {pos : ℕ} (hop : opOf heap s c = .write d data) (hcursor : (files s).cursor d = some (node, pos)) :
    pos ≤ ((files s).contents node).length ∧ pos + data.length < 2 ^ 31 := by
  cases c with
  | «open» path flags mode => exact absurd hop ((opOf_open heap s path flags mode).2 d data)
  | close fd =>
    rw [opOf] at hop
    split at hop <;> cases hop
  | read fd count =>
    rw [opOf] at hop
    split at hop <;> cases hop
  | write fd buf count =>
    rw [opOf] at hop
    split at hop
    · cases hop
    obtain ⟨rfl, rfl⟩ := FileOp.write.inj hop
    cases hopen : openObject s fd with
    | none =>
      change cursorOf s fd = _ at hcursor
      rw [cursorOf, hopen] at hcursor
      cases hcursor
    | some obj =>
      rw [files_cursor hopen] at hcursor
      obtain ⟨rfl, rfl⟩ := Prod.mk.inj (Option.some.inj hcursor)
      obtain ⟨hle, hlt⟩ := htame obj hopen
      rw [files_contents (h.opened hopen).1, length_fileBytes h.backed, List.length_map,
        List.length_range]
      exact ⟨hle, hlt⟩
  | lseek fd offset whence =>
    rw [opOf] at hop
    split at hop <;> cases hop

/-- **The invariant is kept.** -/
theorem fileCall_cursorsOk (heap : Allocator) {c : FileCall} (h : CursorsOk s) (htame : Tame s c) :
    CursorsOk (fileCall heap s c).1 := by
  have hfiles := (fileStep_files heap h htame).1
  refine ⟨fileStep_backed h.backed (fileStep_eq heap s c), fileStep_treeOk h.tree
    (fileStep_eq heap s c), fileCall_descriptorsOk heap h.descriptors c, ?_, ?_⟩
  · show ∀ fd node pos, (files (fileCall heap s c).1).cursor fd = some (node, pos) → _
    rw [hfiles]
    refine Files.cursor_step (fun d n pos hd => ?_) _ fun d n emptied hop => opOf_open_lt h.tree hop
    exact (h.node_lt d n pos hd).trans_le (fileCall_nextNode_le heap s c)
  · rw [hfiles]
    exact Files.length_step (by decide) h.length_lt _ fun d data n pos hop hcursor =>
      opOf_write_lt h htame hop hcursor

/-! ### Runs -/

/-- The files that `fs_init` makes are small. -/
theorem fsInit_size_lt (h : fsInit heap = some s) (node : ℕ) : (s.nodes node).size < 2 ^ 31 := by
  have hcreated : ∀ (t : Fs) parent name mode, (∀ m, (t.nodes m).size < 2 ^ 31) →
      ∀ m, ((created t parent name mode).nodes m).size < 2 ^ 31 := by
    intro t parent name mode ht m
    by_cases hm : m = t.nextNode
    · rw [hm, (created_new t parent name mode).2.2.1]
      decide
    · rw [created_old hm]
      exact ht m
  have hfile : ∀ (t t' : Fs) parent capacity name content,
      initFile heap t parent name capacity content = some t' → (bytesOf content).length < 2 ^ 31 →
        (∀ m, (t.nodes m).size < 2 ^ 31) → ∀ m, (t'.nodes m).size < 2 ^ 31 := by
    intro t t' parent capacity name content hinit hlen ht m
    rcases initFile_cases hinit with ⟨-, rfl⟩ | ⟨bytes, -, rfl⟩
    · exact ht m
    have hmade : ∀ m, (((made t (bytesOf name) (sIfreg ||| 0o644)).tick.setNode t.nextNode fun n =>
        { n with privateData := some ⟨capacity, bytes⟩, size := (bytesOf content).length }).nodes
          m).size < 2 ^ 31 := by
      intro m
      by_cases hm : m = t.nextNode
      · rw [hm, Fs.setNode_self]
        exact hlen
      · rw [Fs.setNode_of_ne _ _ hm]
        show (Function.update t.nodes t.nextNode _ m).size < _
        rw [Function.update_of_ne hm]
        exact ht m
    by_cases hm : m = parent
    · rw [createdFile, vfsAddChild, hm, Fs.setNode_self]
      exact hmade parent
    · rw [createdFile, vfsAddChild, Fs.setNode_of_ne _ _ hm]
      exact hmade m
  obtain ⟨s₂, hhello, htest⟩ := fsInit_cases h
  have hroot : ∀ m, (rootFs.nodes m).size < 2 ^ 31 := by
    intro m
    show (Function.update (fun _ => (default : Node)) 0 _ m).size < _
    by_cases hm : m = 0
    · rw [hm, Function.update_self]
      decide
    · rw [Function.update_of_ne hm]
      decide
  have hs₂ := hfile _ _ _ _ _ _ hhello (by decide) (hcreated rootFs 0 _ _ hroot)
  rcases htest with rfl | htest
  · exact hs₂ node
  · exact hfile _ _ _ _ _ _ htest (by decide) (hcreated s₂ 1 _ _ hs₂) node

theorem fsInit_cursorsOk (h : fsInit heap = some s) : CursorsOk s := by
  have hnone : ∀ fd, cursorOf s fd = none := by
    intro fd
    have hopen : openObject s fd = none := by
      refine Option.eq_none_iff_forall_ne_some.mpr fun obj hobj => ?_
      obtain ⟨-, -, entry, he, -⟩ := openObject_some hobj
      cases (fsInit_fdTable h _).symm.trans he
    rw [cursorOf, hopen]
    rfl
  refine ⟨fsInit_backed h, fsInit_treeOk h, (loggedOk_init h).descriptors, fun fd node pos hd => ?_,
    fun node => ?_⟩
  · cases (hnone fd).symm.trans hd
  · show (if node < s.nextNode then fileBytes s node else []).length < _
    split
    · rw [length_fileBytes (fsInit_backed h)]
      exact fsInit_size_lt h node
    · decide

/-- The file system after some calls. -/
def afterCalls (heap : Allocator) (s : Fs) (calls : List FileCall) : Fs :=
  calls.foldl (fun s c => (fileCall heap s c).1) s

/-- What some calls are to do, each in the state before it. -/
def history (heap : Allocator) : Fs → List FileCall → List (FileOp ℕ ℤ UInt8)
  | _, [] => []
  | s, c :: calls => opOf heap s c :: history heap (fileCall heap s c).1 calls

/-- What each of some calls reads. -/
def reads (heap : Allocator) : Fs → List FileCall → List (List UInt8)
  | _, [] => []
  | s, c :: calls => bytesRead s c :: reads heap (fileCall heap s c).1 calls

/-- **Runs from a state of the invariant.** -/
theorem run_files (h : CursorsOk s) (calls : List FileCall)
    (htame : Made (fileStep heap) Tame s calls) :
    CursorsOk (afterCalls heap s calls) ∧
      files (afterCalls heap s calls) = ((files s).steps (history heap s calls)).1 ∧
        reads heap s calls = ((files s).steps (history heap s calls)).2 := by
  induction calls generalizing s with
  | nil => exact ⟨h, rfl, rfl⟩
  | cons c calls ih =>
    obtain ⟨hc, hcalls⟩ := htame
    obtain ⟨hfiles, hread⟩ := fileStep_files heap h hc
    obtain ⟨hok, hafter, hreads⟩ := ih (fileCall_cursorsOk heap h hc) (hcalls _ (fileStep_eq heap s c))
    rw [hfiles] at hafter hreads
    refine ⟨hok, ?_, ?_⟩
    · rw [history, Files.steps, ← hafter]
      rfl
    · rw [history, Files.steps, reads, hreads, hread]

/-- Pieces are written one after another. -/
def writeCalls (fd : ℤ) (pieces : List (List UInt8)) : List FileCall :=
  pieces.map fun piece => .write fd (fun i => piece.getD i 0) piece.length

/-- With memory, a write of a piece returns its length. -/
theorem fileCall_piece (hheap : heap s.allocs ≠ none) {node pos : ℕ} {piece : List UInt8}
    (hcursor : cursorOf s fd = some (node, pos)) (hlen : piece.length < 2 ^ 31) :
    (fileCall heap s (.write fd (fun i => piece.getD i 0) piece.length)).2 = piece.length := by
  obtain ⟨obj, hopen, -⟩ := Option.map_eq_some_iff.mp hcursor
  obtain ⟨t, result, hw⟩ : ∃ t result, memfsWrite heap s (s.objects obj).privateData
      (fun i => piece.getD i 0) piece.length (s.objects obj).offset = (t, result) := ⟨_, _, rfl⟩
  have hresult : result = piece.length := by
    rcases memfsWrite_result hw with ⟨-, hnone, -⟩ | ⟨-, rfl, -⟩
    · exact absurd hnone hheap
    · exact toSigned_eq_self_iff.mpr hlen
  rw [fileCall, syscallWrite_eq hopen hw]
  split <;> exact hresult

/-- It is done. -/
theorem opOf_piece (hheap : heap s.allocs ≠ none) {node pos : ℕ} {piece : List UInt8}
    (hcursor : cursorOf s fd = some (node, pos)) (hlen : piece.length < 2 ^ 31) :
    opOf heap s (.write fd (fun i => piece.getD i 0) piece.length) = .write fd piece := by
  have hne : (fileCall heap s (.write fd (fun i => piece.getD i 0) piece.length)).2 ≠ -1 := by
    rw [fileCall_piece hheap hcursor hlen]
    omega
  rw [opOf, if_neg hne]
  congr 1
  apply List.ext_getElem
  · simp
  · intro i h₁ h₂
    simp [h₂]

/-- A write of a piece is tame, and puts it where the descriptor is. -/
theorem piece_written (hheap : heap s.allocs ≠ none) (h : CursorsOk s) {node pos : ℕ}
    {piece : List UInt8} (hcursor : cursorOf s fd = some (node, pos))
    (hpos : pos ≤ (fileBytes s node).length) (hlen : pos + piece.length < 2 ^ 31) {t : Fs}
    (ht : (fileCall heap s (.write fd (fun i => piece.getD i 0) piece.length)).1 = t) :
    Tame s (.write fd (fun i => piece.getD i 0) piece.length) ∧ CursorsOk t ∧
      cursorOf t fd = some (node, pos + piece.length) ∧
        fileBytes t node = splice (fileBytes s node) pos piece := by
  have hnode := h.node_lt fd node pos hcursor
  have hop := opOf_piece hheap hcursor (show piece.length < 2 ^ 31 by omega)
  have htame : Tame s (.write fd (fun i => piece.getD i 0) piece.length) := by
    intro obj hopen
    have hplace := Option.some.inj (hcursor.symm.trans (files_cursor hopen))
    obtain ⟨rfl, rfl⟩ := Prod.mk.inj hplace
    rw [length_fileBytes h.backed] at hpos
    exact ⟨hpos, by omega⟩
  obtain ⟨hfiles, -⟩ := fileStep_files heap h htame
  have hok := fileCall_cursorsOk heap h htame
  rw [hop, Files.step_write hcursor, ht] at hfiles
  rw [ht] at hok
  have hcursor' : cursorOf t fd = some (node, pos + piece.length) := by
    show (files t).cursor fd = _
    rw [hfiles]
    exact Function.update_self ..
  refine ⟨htame, hok, hcursor', ?_⟩
  rw [← files_contents (hok.node_lt fd _ _ hcursor'), hfiles, ← files_contents hnode]
  exact Function.update_self ..

/-- The pieces are written where the descriptor is. -/
theorem writeCalls_files (hheap : ∀ n, heap n ≠ none) (h : CursorsOk s) {node pos : ℕ}
    (hcursor : cursorOf s fd = some (node, pos)) (hpos : pos ≤ (fileBytes s node).length)
    (pieces : List (List UInt8)) (hlen : pos + pieces.flatten.length < 2 ^ 31) :
    Made (fileStep heap) Tame s (writeCalls fd pieces) ∧
      history heap s (writeCalls fd pieces) = pieces.map (.write fd) := by
  induction pieces generalizing s pos with
  | nil => exact ⟨trivial, rfl⟩
  | cons piece pieces ih =>
    rw [List.flatten_cons, List.length_append] at hlen
    have hop := opOf_piece (hheap s.allocs) hcursor (show piece.length < 2 ^ 31 by omega)
    obtain ⟨t, ht⟩ : ∃ t,
        (fileCall heap s (.write fd (fun i => piece.getD i 0) piece.length)).1 = t := ⟨_, rfl⟩
    obtain ⟨htame, hok, hcursor', hcontents⟩ :=
      piece_written (hheap s.allocs) h hcursor hpos (by omega) ht
    obtain ⟨hmade, hhistory⟩ := ih hok hcursor'
      (by rw [hcontents, length_splice hpos]; exact le_max_right ..) (by omega)
    refine ⟨⟨htame, fun t' ht' => ?_⟩, ?_⟩
    · rw [fileStep_eq, ht] at ht'
      rw [← Option.some.inj ht']
      exact hmade
    · rw [writeCalls, List.map_cons, history, hop, ht, ← writeCalls, hhistory]
      rfl

/-- **What one descriptor writes, another one reads**: in any state that a tame run from `fs_init`
reaches, with memory, pieces that are written one after another through a descriptor lie behind one
another in the file, and a second descriptor of the file reads them from wherever it is. -/
theorem pieces_read_back (heap : Allocator) (hheap : ∀ n, heap n ≠ none) (s₀ : Fs)
    (h : fsInit heap = some s₀) (calls : List FileCall)
    (htame : Made (fileStep heap) Tame s₀ calls) (fd fd' : ℤ) (hne : fd ≠ fd') (node pos pos' : ℕ)
    (hcursor : cursorOf (afterCalls heap s₀ calls) fd = some (node, pos))
    (hcursor' : cursorOf (afterCalls heap s₀ calls) fd' = some (node, pos'))
    (hpos : pos ≤ (fileBytes (afterCalls heap s₀ calls) node).length)
    (pieces : List (List UInt8)) (hlen : pos + pieces.flatten.length < 2 ^ 31) (count : ℕ)
    (hcount : pos' + count < 2 ^ 64) :
    bytesRead (afterCalls heap (afterCalls heap s₀ calls) (writeCalls fd pieces)) (.read fd' count) =
      ((splice (fileBytes (afterCalls heap s₀ calls) node) pos pieces.flatten).drop pos').take
        count := by
  obtain ⟨hok, -⟩ := run_files (fsInit_cursorsOk h) calls htame
  obtain ⟨s, hs⟩ : ∃ s, afterCalls heap s₀ calls = s := ⟨_, rfl⟩
  rw [hs] at hok hcursor hcursor' hpos ⊢
  obtain ⟨hmade, hhistory⟩ := writeCalls_files hheap hok hcursor hpos pieces hlen
  obtain ⟨hok', hfiles, -⟩ := run_files hok _ hmade
  have hnode := hok.node_lt fd node pos hcursor
  have hlength : pos ≤ ((files s).contents node).length := by rwa [files_contents hnode]
  obtain ⟨t, ht⟩ : ∃ t, afterCalls heap s (writeCalls fd pieces) = t := ⟨_, rfl⟩
  rw [hhistory, ht] at hfiles
  rw [ht] at hok' ⊢
  have hplace : cursorOf t fd' = some (node, pos') := by
    show (files t).cursor fd' = _
    rw [hfiles, Files.steps_writes_cursor hne hcursor hlength]
    exact hcursor'
  obtain ⟨obj, hopen, hobj⟩ := Option.map_eq_some_iff.mp hplace
  have htame' : Tame t (.read fd' count) := by
    intro obj' hopen'
    rwa [← Option.some.inj (hopen.symm.trans hopen'), (Prod.mk.inj hobj).2]
  rw [bytesRead_eq hok' htame' hopen, hfiles, Files.read_after_writes hne hcursor hlength hcursor',
    files_contents hnode]

/-- `hello.txt` is opened twice and written in two pieces. -/
theorem pieces_read_back_hello :
    bytesRead (afterCalls zeroedHeap (afterCalls zeroedHeap startedFs
        [.open (bytesOf "/memfs/hello.txt") 0 0, .open (bytesOf "/memfs/hello.txt") 0 0])
      (writeCalls 0 [[65, 66], [67]])) (.read 1 3) = [65, 66, 67] :=
  (pieces_read_back zeroedHeap (fun _ => Option.some_ne_none _) startedFs startedFs_eq
    [.open (bytesOf "/memfs/hello.txt") 0 0, .open (bytesOf "/memfs/hello.txt") 0 0]
    ⟨trivial, fun _ _ => ⟨trivial, fun _ _ => trivial⟩⟩ 0 1 (by decide) 2 0 0 (by decide +kernel)
    (by decide +kernel) (Nat.zero_le _) [[65, 66], [67]] (by decide) 3 (by decide)).trans
      (take_drop_splice (a := [65, 66, 67]) (Nat.zero_le _))

end PrismaticOS.Kernel
