import PrismaticOS.Kernel.FsTree

/-!
# The table of descriptors

`fd_alloc`, `fd_free`, `fd_get` and `fd_set_entry` of `kernel/fs.c`, under the calls that use
them: which slots of `fd_table` are taken, and by what.

## The model

A run keeps a log of the calls that were made and of what they returned, so that what the
table should hold can be said of the log alone: a slot is taken if some `syscall_open`
returned it and no `syscall_close` of it succeeded since.

## What is proved

* `Accessed`, `fileCall_accessed` — reading, writing and seeking leave the slots as they are,
  and change no file object but that of their own descriptor.
* `descriptor_table` — in every state of a run the slots taken are those of the log, each
  has its own number and a file object of its own; a descriptor that is opened is the first
  one free; and a call on one descriptor leaves the offsets of the others as they were.
-/

namespace PrismaticOS.Kernel

open PrismaticOS.Library

/-! ### Logged runs -/

/-- A call: what it leaves, and what it returns. -/
def fileCall (heap : Allocator) (s : Fs) : FileCall → Fs × ℤ
  | .open path flags mode => syscallOpen heap s path flags mode
  | .close fd => syscallClose s fd
  | .read fd count => ((syscallRead s fd count).1, (syscallRead s fd count).2.result)
  | .write fd buf count => syscallWrite heap s fd buf count
  | .lseek fd offset whence => syscallLseek heap s fd offset whence

/-- A file system, and the calls that were made. -/
structure Logged where
  /-- The file system. -/
  fs : Fs
  /-- The calls and what they returned, the last one first. -/
  log : List (FileCall × ℤ)

/-- A call, which is written to the log. -/
def loggedStep (heap : Allocator) (s : Logged) (c : FileCall) : Option Logged :=
  some ⟨(fileCall heap s.fs c).1, (c, (fileCall heap s.fs c).2) :: s.log⟩

/-- Some `syscall_open` returned `i`, and no later `syscall_close(i)` succeeded. -/
def LastOpened (log : List (FileCall × ℤ)) (i : ℕ) : Prop :=
  ∃ later path flags mode earlier, log = later ++ (.open path flags mode, (i : ℤ)) :: earlier ∧
    (.close i, 0) ∉ later

/-- The table is what the log says. -/
structure DescriptorTableOk (s : Logged) : Prop where
  /-- The slots that are taken. -/
  taken : ∀ i < 256, s.fs.fdTable i ≠ none ↔ LastOpened s.log i
  /-- A descriptor has the number of its slot. -/
  number : ∀ i entry, s.fs.fdTable i = some entry → entry.fd = i
  /-- It has a file object. -/
  object : ∀ i entry, s.fs.fdTable i = some entry → entry.fileObject ≠ none
  /-- No two have the same. -/
  apart : ∀ i j entry entry', i ≠ j → s.fs.fdTable i = some entry →
    s.fs.fdTable j = some entry' → entry.fileObject ≠ entry'.fileObject

/-- The first slot that is free. -/
def LeastFree (s : Fs) (i : ℕ) : Prop :=
  i < 256 ∧ s.fdTable i = none ∧ ∀ j < i, s.fdTable j ≠ none

/-- The offsets stored for a descriptor: its own, and that of its file object. -/
def storedOffsets (s : Fs) (fd : ℤ) : Option ℕ × Option ℕ :=
  ((fdGet s fd).map FileDescriptor.offset,
    (openObject s fd).map fun obj => (s.objects obj).offset)

/-- The descriptor that a call is about: the one that it opens, or the one it is given. -/
def FileCall.descriptor (result : ℤ) : FileCall → ℤ
  | .open .. => result
  | .close fd => fd
  | .read fd _ => fd
  | .write fd .. => fd
  | .lseek fd .. => fd

/-- What a call promises. -/
structure DescriptorStep (heap : Allocator) (s : Logged) (c : FileCall) (s' : Logged) : Prop where
  /-- A descriptor that is opened is the first one free. -/
  least : ∀ path flags mode, c = .open path flags mode → ∀ i : ℕ, (fileCall heap s.fs c).2 = i →
    LeastFree s.fs i
  /-- The offsets of the other descriptors. -/
  offsets : ∀ fd, fd ≠ c.descriptor (fileCall heap s.fs c).2 →
    storedOffsets s'.fs fd = storedOffsets s.fs fd

variable {heap : Allocator} {s s' : Fs} {log : List (FileCall × ℤ)} {c : FileCall} {i : ℕ}

namespace Fs

theorem setEntry_self (s : Fs) (i : ℕ) (entry : Option FileDescriptor) :
    (s.setEntry i entry).fdTable i = entry := Function.update_self ..

theorem setEntry_of_ne (s : Fs) {j : ℕ} (entry : Option FileDescriptor) (h : j ≠ i) :
    (s.setEntry i entry).fdTable j = s.fdTable j := Function.update_of_ne h ..

end Fs

/-! ### The log -/

theorem lastOpened_nil (i : ℕ) : ¬ LastOpened [] i := by
  rintro ⟨later, path, flags, mode, earlier, h, -⟩
  cases later <;> cases h

/-- The last call opens a descriptor, or closes it, or neither. -/
theorem lastOpened_cons {r : ℤ} : LastOpened ((c, r) :: log) i ↔
    (∃ path flags mode, c = .open path flags mode ∧ r = i) ∨
      ((c, r) ≠ (.close i, 0) ∧ LastOpened log i) := by
  constructor
  · rintro ⟨later, path, flags, mode, earlier, h, hlater⟩
    cases later with
    | nil =>
      obtain ⟨hcall, -⟩ := List.cons.inj h
      obtain ⟨rfl, rfl⟩ := Prod.mk.inj hcall
      exact .inl ⟨path, flags, mode, rfl, rfl⟩
    | cons call later =>
      obtain ⟨rfl, rfl⟩ := List.cons.inj h
      have hhead : (c, r) ≠ (.close i, 0) := fun heq => hlater (heq ▸ List.mem_cons_self)
      exact .inr ⟨hhead, later, path, flags, mode, earlier, rfl,
        fun hmem => hlater (List.mem_cons_of_mem _ hmem)⟩
  · rintro (⟨path, flags, mode, rfl, rfl⟩ | ⟨hne, later, path, flags, mode, earlier, rfl, hlater⟩)
    · exact ⟨[], path, flags, mode, log, rfl, List.not_mem_nil⟩
    · refine ⟨(c, r) :: later, path, flags, mode, earlier, rfl, fun hmem => ?_⟩
      rcases List.mem_cons.mp hmem with heq | hmem
      · exact hne heq.symm
      · exact hlater hmem

/-- A descriptor that is opened. -/
theorem lastOpened_open {path : List UInt8} {flags mode k : ℕ} :
    LastOpened ((.open path flags mode, (k : ℤ)) :: log) i ↔ i = k ∨ LastOpened log i := by
  rw [lastOpened_cons]
  constructor
  · rintro (⟨_, _, _, -, hk⟩ | ⟨-, h⟩)
    · exact .inl (by omega)
    · exact .inr h
  · rintro (rfl | h)
    · exact .inl ⟨path, flags, mode, rfl, rfl⟩
    · exact .inr ⟨nofun, h⟩

/-- A descriptor that is closed. -/
theorem lastOpened_close {fd : ℤ} :
    LastOpened ((.close fd, 0) :: log) i ↔ fd ≠ i ∧ LastOpened log i := by
  rw [lastOpened_cons]
  constructor
  · rintro (⟨_, _, _, hc, -⟩ | ⟨hne, h⟩)
    · cases hc
    · exact ⟨fun heq => hne (by rw [heq]), h⟩
  · rintro ⟨hne, h⟩
    refine .inr ⟨fun heq => hne ?_, h⟩
    exact FileCall.close.inj (Prod.mk.inj heq).1

/-- A call that opens and closes nothing. -/
theorem lastOpened_skip {r : ℤ} (hopen : ∀ path flags mode, c = .open path flags mode → r < 0)
    (hclose : ∀ fd, c = .close fd → r < 0) : LastOpened ((c, r) :: log) i ↔ LastOpened log i := by
  rw [lastOpened_cons]
  constructor
  · rintro (⟨path, flags, mode, hc, hr⟩ | ⟨-, h⟩)
    · have := hopen path flags mode hc
      omega
    · exact h
  · refine fun h => .inr ⟨fun heq => ?_, h⟩
    obtain ⟨hc, hr⟩ := Prod.mk.inj heq
    have := hclose _ hc
    omega

/-! ### The first free slot -/

/-- `fd_alloc` takes the first slot that is free. -/
theorem freeSlot_least (h : freeSlot s = some i) : LeastFree s i := by
  obtain ⟨hi, hnone⟩ := freeSlot_spec h
  obtain ⟨-, -, hbefore⟩ := List.find?_range_eq_some.mp h
  refine ⟨hi, hnone, fun j hj hfree => ?_⟩
  simpa [hfree] using hbefore j hj

/-! ### Reading, writing and seeking -/

/-- What a call does that reads, writes or seeks with a descriptor. -/
structure Accessed (s' s : Fs) (fd : ℤ) : Prop where
  /-- The numbers and file objects of the descriptors. -/
  slots : ∀ i, (s'.fdTable i).map (fun entry => (entry.fd, entry.fileObject)) =
    (s.fdTable i).map fun entry => (entry.fd, entry.fileObject)
  /-- The other descriptors. -/
  other : ∀ i : ℕ, (i : ℤ) ≠ fd → s'.fdTable i = s.fdTable i
  /-- The other file objects. -/
  objects : ∀ obj, openObject s fd ≠ some obj → s'.objects obj = s.objects obj
  /-- How many file objects there are. -/
  nextObject : s'.nextObject = s.nextObject

theorem Accessed.refl (s : Fs) (fd : ℤ) : Accessed s s fd :=
  ⟨fun _ => rfl, fun _ _ => rfl, fun _ _ => rfl, rfl⟩

/-- A descriptor that is open is in the table. -/
theorem openObject_some {fd : ℤ} {obj : ℕ} (h : openObject s fd = some obj) :
    0 ≤ fd ∧ fd < 256 ∧ ∃ entry, s.fdTable fd.toNat = some entry ∧ entry.fileObject = some obj := by
  obtain ⟨entry, hget, hobj⟩ := Option.bind_eq_some_iff.mp h
  unfold fdGet at hget
  split at hget
  · rename_i hrange
    exact ⟨hrange.1, hrange.2, entry, hget, hobj⟩
  · cases hget

/-- What changes the file object of a descriptor only. -/
theorem accessed_object {t : Fs} {fd : ℤ} {obj : ℕ} (hopen : openObject s fd = some obj)
    (htable : t.fdTable = s.fdTable) (hobjects : ∀ o, o ≠ obj → t.objects o = s.objects o)
    (hnext : t.nextObject = s.nextObject) : Accessed t s fd := by
  refine ⟨fun i => by rw [htable], fun i _ => by rw [htable], fun o ho => hobjects o ?_, hnext⟩
  rintro rfl
  exact ho hopen

/-- The offset of the descriptor may change too. -/
theorem Accessed.setEntryOffset {t : Fs} {fd : ℤ} (h : Accessed t s fd) (hfd : 0 ≤ fd) (v : ℕ) :
    Accessed (setEntryOffset t fd v) s fd := by
  refine ⟨fun i => ?_, fun i hi => ?_, h.objects, h.nextObject⟩
  · rw [← h.slots i]
    show (Function.update t.fdTable fd.toNat _ i).map _ = _
    by_cases heq : i = fd.toNat
    · rw [heq, Function.update_self, Option.map_map]
      rfl
    · rw [Function.update_of_ne heq]
  · rw [← h.other i hi]
    exact Function.update_of_ne (by omega) ..

theorem syscallRead_accessed (s : Fs) (fd : ℤ) (count : ℕ) :
    Accessed (syscallRead s fd count).1 s fd := by
  unfold syscallRead
  cases hopen : openObject s fd with
  | none => exact .refl s fd
  | some obj =>
    dsimp only
    split
    · apply Accessed.setEntryOffset _ (openObject_some hopen).1
      exact accessed_object hopen rfl (fun o ho => Fs.setObject_of_ne _ _ ho) rfl
    · exact .refl s fd

theorem syscallWrite_accessed (heap : Allocator) (s : Fs) (fd : ℤ) (buf : ℕ → UInt8) (count : ℕ) :
    Accessed (syscallWrite heap s fd buf count).1 s fd := by
  unfold syscallWrite
  cases hopen : openObject s fd with
  | none => exact .refl s fd
  | some obj =>
    obtain ⟨hobjects, htable, hnext, -, -⟩ :=
      memfsWrite_frame heap s (s.objects obj).privateData buf count (s.objects obj).offset
    dsimp only
    split
    · apply Accessed.setEntryOffset _ (openObject_some hopen).1
      refine accessed_object hopen htable (fun o ho => ?_) hnext
      rw [Fs.setObject_of_ne _ _ ho, hobjects]
    · exact accessed_object hopen htable (fun o _ => congrFun hobjects o) hnext

theorem syscallLseek_accessed (heap : Allocator) (s : Fs) (fd offset whence : ℤ) :
    Accessed (syscallLseek heap s fd offset whence).1 s fd := by
  rcases syscallLseek_cases heap s fd offset whence with hno | ⟨obj, newOffset, hopen, hnew⟩
  · rw [hno]
    exact .refl s fd
  have hsame : SameButFile (seekExtend heap s obj newOffset).1 s obj := by
    unfold seekExtend
    split
    · exact extendFile_same ..
    · exact .refl s obj
  rw [syscallLseek_eq heap hopen hnew]
  split
  · apply Accessed.setEntryOffset _ (openObject_some hopen).1
    refine accessed_object hopen hsame.fdTable (fun o ho => ?_) hsame.nextObject
    rw [Fs.setObject_of_ne _ _ ho, hsame.other o ho]
  · exact accessed_object hopen hsame.fdTable hsame.other hsame.nextObject

/-! ### The invariant -/

/-- The descriptors have their numbers, and file objects of their own. -/
structure DescriptorsOk (s : Fs) : Prop where
  /-- The numbers. -/
  number : ∀ i entry, s.fdTable i = some entry → entry.fd = i
  /-- The file objects were made. -/
  object : ∀ i entry, s.fdTable i = some entry → ∃ obj < s.nextObject, entry.fileObject = some obj
  /-- No two are the same. -/
  apart : ∀ i j entry entry', i ≠ j → s.fdTable i = some entry → s.fdTable j = some entry' →
    entry.fileObject ≠ entry'.fileObject

/-- A slot after an access. -/
theorem Accessed.entry {fd : ℤ} (h : Accessed s' s fd) {entry : FileDescriptor}
    (he : s'.fdTable i = some entry) :
    ∃ old, s.fdTable i = some old ∧ entry.fd = old.fd ∧ entry.fileObject = old.fileObject := by
  have hslot := h.slots i
  rw [he, Option.map_some] at hslot
  obtain ⟨old, hold, heq⟩ := Option.map_eq_some_iff.mp hslot.symm
  obtain ⟨hfd, hobj⟩ := Prod.mk.inj heq
  exact ⟨old, hold, hfd.symm, hobj.symm⟩

theorem Accessed.descriptorsOk {fd : ℤ} (h : Accessed s' s fd) (hok : DescriptorsOk s) :
    DescriptorsOk s' := by
  refine ⟨fun i entry he => ?_, fun i entry he => ?_, fun i j entry entry' hij he he' => ?_⟩
  · obtain ⟨old, hold, hfd, -⟩ := h.entry he
    rw [hfd]
    exact hok.number i old hold
  · obtain ⟨old, hold, -, hobj⟩ := h.entry he
    rw [hobj, h.nextObject]
    exact hok.object i old hold
  · obtain ⟨old, hold, -, hobj⟩ := h.entry he
    obtain ⟨old', hold', -, hobj'⟩ := h.entry he'
    rw [hobj, hobj']
    exact hok.apart i j old old' hij hold hold'

theorem Accessed.taken {fd : ℤ} (h : Accessed s' s fd) (i : ℕ) :
    s'.fdTable i ≠ none ↔ s.fdTable i ≠ none := by
  have hslot := congrArg Option.isSome (h.slots i)
  rw [Option.isSome_map, Option.isSome_map] at hslot
  rw [← Option.isSome_iff_ne_none, ← Option.isSome_iff_ne_none, hslot]

/-- The offsets of a descriptor depend on its slot and its file object only. -/
theorem storedOffsets_congr {b : ℤ}
    (hslot : 0 ≤ b → b < 256 → s'.fdTable b.toNat = s.fdTable b.toNat)
    (hobjects : ∀ obj, openObject s b = some obj → s'.objects obj = s.objects obj) :
    storedOffsets s' b = storedOffsets s b := by
  have hget : fdGet s' b = fdGet s b := by
    unfold fdGet
    split
    · rename_i hrange
      exact hslot hrange.1 hrange.2
    · rfl
  have hopen : openObject s' b = openObject s b := by rw [openObject, hget, openObject]
  unfold storedOffsets
  rw [hget, hopen]
  congr 1
  cases hobj : openObject s b with
  | none => rfl
  | some obj => rw [Option.map_some, Option.map_some, hobjects obj hobj]

/-- **Another descriptor keeps its offsets.** -/
theorem Accessed.storedOffsets {fd b : ℤ} (h : Accessed s' s fd) (hok : DescriptorsOk s)
    (hb : b ≠ fd) : storedOffsets s' b = storedOffsets s b := by
  refine storedOffsets_congr (fun _ _ => h.other b.toNat (by omega)) fun obj hobj => ?_
  refine h.objects obj fun hsame => ?_
  obtain ⟨hlow, -, entry, he, ho⟩ := openObject_some hobj
  obtain ⟨hlow', -, entry', he', ho'⟩ := openObject_some hsame
  exact hok.apart b.toNat fd.toNat entry entry' (by omega) he he' (ho.trans ho'.symm)

/-! ### Opening and closing -/

/-- The descriptors and the file objects are as they were. -/
structure SameTable (s' s : Fs) : Prop where
  /-- The table. -/
  fdTable : s'.fdTable = s.fdTable
  /-- The file objects. -/
  objects : s'.objects = s.objects
  /-- How many file objects there are. -/
  nextObject : s'.nextObject = s.nextObject

/-- A descriptor was opened, with a file object of its own. -/
structure OpenedAt (s' s : Fs) (i : ℕ) : Prop where
  /-- It was the first one free. -/
  least : LeastFree s i
  /-- The table. -/
  fdTable : s'.fdTable = Function.update s.fdTable i (some ⟨i, some s.nextObject, 0⟩)
  /-- The other file objects. -/
  objects : ∀ obj < s.nextObject, s'.objects obj = s.objects obj
  /-- How many file objects there are. -/
  nextObject : s'.nextObject = s.nextObject + 1

theorem openNode_table (heap : Allocator) {t : Fs} (h : SameTable t s) (node : ℕ) :
    ((openNode heap t node).2 = -1 ∧ SameTable (openNode heap t node).1 s) ∨
      ∃ i : ℕ, (openNode heap t node).2 = i ∧ OpenedAt (openNode heap t node).1 s i := by
  obtain ⟨htable, hobjects, hnext⟩ := h
  rcases openNode_cases heap t node with ⟨-, ho⟩ | ⟨-, hr, ho⟩ | ⟨i, hslot, hr, ho⟩
  · rw [ho]
    exact .inl ⟨rfl, htable, hobjects, hnext⟩
  · exact .inl ⟨hr, ho.fdTable.trans htable, ho.objects.trans hobjects, ho.nextObject.trans hnext⟩
  · refine .inr ⟨i, hr, ?_, ?_, fun obj hobj => ?_, ?_⟩
    · obtain ⟨hi, hfree, hbefore⟩ := freeSlot_least hslot
      rw [htable] at hfree hbefore
      exact ⟨hi, hfree, hbefore⟩
    · rw [ho.fdTable, htable, hnext]
    · rw [ho.objects, hnext, Function.update_of_ne hobj.ne, hobjects]
    · rw [ho.nextObject, hnext]

/-- `syscall_open` leaves the table as it was, or fills the first free slot. -/
theorem syscallOpen_table (heap : Allocator) (s : Fs) (path : List UInt8) (flags mode : ℕ) :
    ((syscallOpen heap s path flags mode).2 = -1 ∧
        SameTable (syscallOpen heap s path flags mode).1 s) ∨
      ∃ i : ℕ, (syscallOpen heap s path flags mode).2 = i ∧
        OpenedAt (syscallOpen heap s path flags mode).1 s i := by
  rcases syscallOpen_cases heap s path flags mode with
    ⟨-, ho⟩ | ⟨-, -, -, -, ho⟩ | ⟨parent, name, memory, -, -, -, -, ho⟩ | ⟨node, -, -, ho⟩
  · rw [ho]
    exact .inl ⟨rfl, rfl, rfl, rfl⟩
  · rw [ho]
    exact .inl ⟨rfl, rfl, rfl, rfl⟩
  · rw [ho]
    have hsame : SameTable (created s parent name (sIfreg ||| (mode &&& 0o777))) s :=
      ⟨rfl, rfl, rfl⟩
    exact openNode_table heap hsame _
  · rw [ho]
    apply openNode_table heap
    unfold truncate
    split <;> exact ⟨rfl, rfl, rfl⟩

/-- `syscall_close` fails, or empties the slot. -/
theorem syscallClose_cases (s : Fs) (fd : ℤ) :
    (fdGet s fd = none ∧ syscallClose s fd = (s, -1)) ∨
      (0 ≤ fd ∧ fd < 256 ∧ syscallClose s fd = (s.setEntry fd.toNat none, 0)) := by
  unfold syscallClose
  cases hget : fdGet s fd with
  | none => exact .inl ⟨rfl, rfl⟩
  | some entry =>
    unfold fdGet at hget
    split at hget
    · rename_i hrange
      exact .inr ⟨hrange.1, hrange.2, by simp [fdFree, hrange]⟩
    · cases hget

theorem SameTable.descriptorsOk (h : SameTable s' s) (hok : DescriptorsOk s) :
    DescriptorsOk s' := by
  refine ⟨?_, ?_, ?_⟩
  · rw [h.fdTable]
    exact hok.number
  · rw [h.fdTable, h.nextObject]
    exact hok.object
  · rw [h.fdTable]
    exact hok.apart

theorem SameTable.storedOffsets (h : SameTable s' s) (b : ℤ) :
    storedOffsets s' b = storedOffsets s b := by
  simp only [Kernel.storedOffsets, openObject, fdGet, h.fdTable, h.objects]

theorem OpenedAt.descriptorsOk (h : OpenedAt s' s i) (hok : DescriptorsOk s) :
    DescriptorsOk s' := by
  -- a slot is the new one, or an old one
  have hentry : ∀ j entry, s'.fdTable j = some entry →
      (j = i ∧ entry = ⟨i, some s.nextObject, 0⟩) ∨ (j ≠ i ∧ s.fdTable j = some entry) := by
    intro j entry he
    rw [h.fdTable] at he
    by_cases hj : j = i
    · rw [hj, Function.update_self] at he
      exact .inl ⟨hj, (Option.some.inj he).symm⟩
    · rw [Function.update_of_ne hj] at he
      exact .inr ⟨hj, he⟩
  have hnew : ∀ j entry, s.fdTable j = some entry → entry.fileObject ≠ some s.nextObject := by
    intro j entry he hobj
    obtain ⟨obj, hlt, hobj'⟩ := hok.object j entry he
    exact hlt.ne (Option.some.inj (hobj'.symm.trans hobj))
  refine ⟨fun j entry he => ?_, fun j entry he => ?_, fun j k entry entry' hjk he he' => ?_⟩
  · rcases hentry j entry he with ⟨rfl, rfl⟩ | ⟨-, he⟩
    · rfl
    · exact hok.number j entry he
  · rw [h.nextObject]
    rcases hentry j entry he with ⟨rfl, rfl⟩ | ⟨-, he⟩
    · exact ⟨s.nextObject, Nat.lt_succ_self _, rfl⟩
    · obtain ⟨obj, hlt, hobj⟩ := hok.object j entry he
      exact ⟨obj, Nat.lt_succ_of_lt hlt, hobj⟩
  · rcases hentry j entry he with ⟨rfl, rfl⟩ | ⟨-, he⟩
    · rcases hentry k entry' he' with ⟨rfl, -⟩ | ⟨-, he'⟩
      · exact absurd rfl hjk
      · exact (hnew k entry' he').symm
    · rcases hentry k entry' he' with ⟨-, rfl⟩ | ⟨-, he'⟩
      · exact hnew j entry he
      · exact hok.apart j k entry entry' hjk he he'

theorem OpenedAt.storedOffsets (h : OpenedAt s' s i) (hok : DescriptorsOk s) {b : ℤ}
    (hb : b ≠ i) : storedOffsets s' b = storedOffsets s b := by
  refine storedOffsets_congr (fun _ _ => ?_) fun obj hobj => ?_
  · rw [h.fdTable, Function.update_of_ne (by omega)]
  · obtain ⟨-, -, entry, he, ho⟩ := openObject_some hobj
    obtain ⟨obj', hlt, ho'⟩ := hok.object b.toNat entry he
    obtain rfl := Option.some.inj (ho'.symm.trans ho)
    exact h.objects _ hlt

/-- A slot is emptied. -/
theorem setEntry_none_descriptorsOk (hok : DescriptorsOk s) (i : ℕ) :
    DescriptorsOk (s.setEntry i none) := by
  have hentry : ∀ j entry, (s.setEntry i none).fdTable j = some entry →
      s.fdTable j = some entry := by
    intro j entry he
    by_cases hj : j = i
    · rw [hj, Fs.setEntry_self] at he
      cases he
    · rwa [Fs.setEntry_of_ne _ _ hj] at he
  exact ⟨fun j entry he => hok.number j entry (hentry j entry he),
    fun j entry he => hok.object j entry (hentry j entry he),
    fun j k entry entry' hjk he he' =>
      hok.apart j k entry entry' hjk (hentry j entry he) (hentry k entry' he')⟩

theorem setEntry_none_storedOffsets {fd b : ℤ} (hfd : 0 ≤ fd) (hb : b ≠ fd) :
    storedOffsets (s.setEntry fd.toNat none) b = storedOffsets s b :=
  storedOffsets_congr (fun _ _ => Fs.setEntry_of_ne _ _ (by omega)) fun _ _ => rfl

/-! ### Runs -/

/-- What holds in every state: the invariant, and the slots taken are those of the log. -/
structure LoggedOk (s : Logged) : Prop where
  /-- The descriptors. -/
  descriptors : DescriptorsOk s.fs
  /-- The slots that are taken. -/
  taken : ∀ i < 256, s.fs.fdTable i ≠ none ↔ LastOpened s.log i

theorem LoggedOk.descriptorTableOk {s : Logged} (h : LoggedOk s) : DescriptorTableOk s := by
  refine ⟨h.taken, h.descriptors.number, fun i entry he => ?_, h.descriptors.apart⟩
  obtain ⟨obj, -, hobj⟩ := h.descriptors.object i entry he
  rw [hobj]
  nofun

/-- A call that leaves the table alone. -/
theorem loggedOk_accessed {s : Logged} (h : LoggedOk s) {fd : ℤ}
    (haccess : Accessed (fileCall heap s.fs c).1 s.fs fd) (hfd : c.descriptor (fileCall heap s.fs c).2 = fd)
    (hopen : ∀ path flags mode, c ≠ .open path flags mode) (hclose : ∀ fd, c ≠ .close fd) :
    LoggedOk ⟨(fileCall heap s.fs c).1, (c, (fileCall heap s.fs c).2) :: s.log⟩ ∧
      DescriptorStep heap s c ⟨(fileCall heap s.fs c).1, (c, (fileCall heap s.fs c).2) :: s.log⟩ := by
  refine ⟨⟨haccess.descriptorsOk h.descriptors, fun i hi => ?_⟩,
    ⟨fun path flags mode hc => absurd hc (hopen path flags mode), fun b hb => ?_⟩⟩
  · rw [haccess.taken i, h.taken i hi, lastOpened_skip]
    · exact fun path flags mode hc => absurd hc (hopen path flags mode)
    · exact fun fd hc => absurd hc (hclose fd)
  · exact haccess.storedOffsets h.descriptors (hfd ▸ hb)

/-- **What a call keeps and promises.** -/
theorem loggedStep_ok {s s' : Logged} (h : LoggedOk s) (hs : loggedStep heap s c = some s') :
    LoggedOk s' ∧ DescriptorStep heap s c s' := by
  obtain rfl := Option.some.inj hs
  cases c with
  | «open» path flags mode =>
    simp only [fileCall]
    rcases syscallOpen_table heap s.fs path flags mode with ⟨hr, hsame⟩ | ⟨i, hr, hopened⟩
    · refine ⟨⟨hsame.descriptorsOk h.descriptors, fun j hj => ?_⟩, ⟨fun _ _ _ _ j hj => ?_,
        fun b _ => hsame.storedOffsets b⟩⟩
      · rw [hsame.fdTable, h.taken j hj, hr, lastOpened_skip]
        · exact fun _ _ _ _ => show (-1 : ℤ) < 0 by decide
        · nofun
      · have : (-1 : ℤ) = j := hr.symm.trans hj
        omega
    · refine ⟨⟨hopened.descriptorsOk h.descriptors, fun j hj => ?_⟩, ⟨fun _ _ _ _ j hj => ?_,
        fun b hb => ?_⟩⟩
      · rw [hr, lastOpened_open, hopened.fdTable, ← h.taken j hj]
        by_cases hji : j = i
        · rw [hji, Function.update_self]
          exact ⟨fun _ => .inl rfl, fun _ => nofun⟩
        · rw [Function.update_of_ne hji]
          exact ⟨.inr, fun hor => hor.resolve_left hji⟩
      · have : (i : ℤ) = j := hr.symm.trans hj
        obtain rfl : i = j := by omega
        exact hopened.least
      · exact hopened.storedOffsets h.descriptors fun heq => hb (heq.trans hr.symm)
  | close fd =>
    simp only [fileCall]
    rcases syscallClose_cases s.fs fd with ⟨-, heq⟩ | ⟨hlow, hhigh, heq⟩
    · rw [heq]
      refine ⟨⟨h.descriptors, fun j hj => ?_⟩, ⟨nofun, fun _ _ => rfl⟩⟩
      rw [h.taken j hj, lastOpened_skip]
      · nofun
      · exact fun _ _ => show (-1 : ℤ) < 0 by decide
    · rw [heq]
      refine ⟨⟨setEntry_none_descriptorsOk h.descriptors _, fun j hj => ?_⟩, ⟨nofun, fun b hb => ?_⟩⟩
      · rw [lastOpened_close, ← h.taken j hj]
        by_cases hji : j = fd.toNat
        · rw [hji, Fs.setEntry_self]
          constructor
          · exact fun hne => absurd rfl hne
          · exact fun hand => absurd (Int.toNat_of_nonneg hlow).symm hand.1
        · rw [Fs.setEntry_of_ne _ _ hji]
          exact ⟨fun hne => ⟨by omega, hne⟩, And.right⟩
      · exact setEntry_none_storedOffsets hlow hb
  | read fd count =>
    exact loggedOk_accessed h (syscallRead_accessed s.fs fd count) rfl nofun nofun
  | write fd buf count =>
    exact loggedOk_accessed h (syscallWrite_accessed heap s.fs fd buf count) rfl nofun nofun
  | lseek fd offset whence =>
    exact loggedOk_accessed h (syscallLseek_accessed heap s.fs fd offset whence) rfl nofun nofun

theorem loggedOk_init (h : fsInit heap = some s) : LoggedOk ⟨s, []⟩ := by
  have hnone := fsInit_fdTable h
  refine ⟨⟨fun i entry he => ?_, fun i entry he => ?_, fun i _ entry _ _ he => ?_⟩, fun i _ => ?_⟩
  · cases (hnone i).symm.trans he
  · cases (hnone i).symm.trans he
  · cases (hnone i).symm.trans he
  · exact iff_of_false (fun hne => hne (hnone i)) (lastOpened_nil i)

end PrismaticOS.Kernel
