import PrismaticOS.Kernel.FsOpen

/-!
# Seeks that fail

`syscall_lseek` extends a file byte by byte, and moves the offset of the file object with every
byte. When there is no memory for one of them it returns -1, and takes nothing back. Offsets are
unsigned inside and signed outside: a target from 2^63 on, as all negative ones are inside, is
returned as a negative number after it was stored.

## What is proved

* `extendFile_done_iff` — the loop gets to the new offset exactly if `kmalloc` has memory for each of
  the bytes past the end of the file.
* `lseek_negative` — a request with a negative target returns a negative number.
* `lseek_atomic_iff` — in every state that a run reaches, a seek that returns a negative number keeps
  the files and the offsets exactly if it extends the file as a whole or not at all, and stores no
  negative offset.
* `lseek_half_extended` — a file that grows although the seek fails.
-/

namespace PrismaticOS.Kernel

open PrismaticOS.Library

/-- The target of a seek, not reduced to 64 bits. -/
def exactTarget (o : FileObject) (offset whence : ℤ) : Option ℤ :=
  if whence = 0 then some offset
  else if whence = 1 then some (o.offset + offset)
  else if whence = 2 then some (o.size + offset)
  else none

/-- The files, the offsets of the file objects and those of the descriptors are what they were. -/
structure SeekKept (s' s : Fs) : Prop where
  /-- The sizes of the files. -/
  size : ∀ m, (s'.nodes m).size = (s.nodes m).size
  /-- Their bytes. -/
  bytes : ∀ m, ∀ i < (s.nodes m).size, byteAt s' m i = byteAt s m i
  /-- The offsets of the file objects. -/
  objects : ∀ obj, (s'.objects obj).offset = (s.objects obj).offset
  /-- The descriptors. -/
  fdTable : s'.fdTable = s.fdTable

/-- A seek that returns a negative number keeps all that, and one with a negative target returns
a negative number. -/
def LseekAtomic (heap : Allocator) (s : Fs) (fd offset whence : ℤ) : Prop :=
  ((syscallLseek heap s fd offset whence).2 < 0 →
      SeekKept (syscallLseek heap s fd offset whence).1 s) ∧
    ∀ obj target, openObject s fd = some obj →
      exactTarget (s.objects obj) offset whence = some target → target < 0 →
        (syscallLseek heap s fd offset whence).2 < 0

/-- The file is extended to the offset `new`. -/
def Extends (o : FileObject) (new : ℕ) : Prop := o.size < new ∧ o.offset < new

/-- A seek to `new` that extends the file has no memory for the first byte, or it has memory for all
of them and `new` is not negative. One that does not extend it goes to an offset that is not
negative, or to where the descriptor is. -/
def SeekAllowed (heap : Allocator) (s : Fs) (entry : FileDescriptor) (obj new : ℕ) : Prop :=
  let o := s.objects obj
  let size := (s.nodes o.privateData).size
  (Extends o new → (size ≤ o.offset ∧ heap s.allocs = none) ∨
      (new < 2 ^ 63 ∧ ∀ j < new - max o.offset size, heap (s.allocs + j) ≠ none)) ∧
    (¬ Extends o new → new < 2 ^ 63 ∨ (o.offset = new ∧ entry.offset = new))

/-- On an open descriptor and for a good `whence`, the target is allowed. -/
def LseekOk (heap : Allocator) (s : Fs) (fd offset whence : ℤ) : Prop :=
  ∀ entry obj target, fdGet s fd = some entry → entry.fileObject = some obj →
    exactTarget (s.objects obj) offset whence = some target →
      SeekAllowed heap s entry obj (ofInt 64 target)

variable {heap : Allocator} {s : Fs} {obj new : ℕ} {fd offset whence : ℤ} {entry : FileDescriptor}

/-! ### Targets -/

/-- The target that is stored is the exact one as a word. -/
theorem seekTarget_eq (o : FileObject) (offset whence : ℤ) :
    seekTarget o offset whence = (exactTarget o offset whence).map (ofInt 64) := by
  unfold seekTarget exactTarget
  split_ifs <;> rfl

/-- A target is at most as negative as an offset can be. -/
theorem exactTarget_ge {o : FileObject} {target : ℤ} (hoffset : -2 ^ 63 ≤ offset)
    (h : exactTarget o offset whence = some target) : -2 ^ 63 ≤ target := by
  unfold exactTarget at h
  split_ifs at h
  all_goals
    obtain rfl := Option.some.inj h
    omega

/-- A word is negative exactly from 2^63 on. -/
theorem toSigned_neg_iff (h : new < 2 ^ 64) : toSigned 64 new < 0 ↔ 2 ^ 63 ≤ new := by
  unfold toSigned
  rw [wrap_of_lt h]
  split <;> omega

/-- A negative target is negative as a word. -/
theorem ofInt_neg {target : ℤ} (hlow : -2 ^ 63 ≤ target) (hneg : target < 0) :
    2 ^ 63 ≤ ofInt 64 target := by
  unfold ofInt
  have hmod : target % 2 ^ 64 = target + 2 ^ 64 := by
    rw [← Int.add_emod_right, Int.emod_eq_of_lt] <;> omega
  rw [hmod]
  omega

/-! ### The loop -/

/-- The write of a turn has no memory: nothing but the call of `kmalloc` happened. -/
theorem zeroWrite_none (ho : (s.objects obj).offset + 1 < 2 ^ 64)
    (hsize : (s.nodes (s.objects obj).privateData).size ≤ (s.objects obj).offset)
    (hheap : heap s.allocs = none) : zeroWrite heap s obj = (s.tick, -1) := by
  rw [zeroWrite]
  rcases memfsWrite_cases heap s (s.objects obj).privateData (fun _ => 0) 1
    (s.objects obj).offset with ⟨-, -, hw⟩ | ⟨_, -, hsome, -⟩ | ⟨hle, -⟩
  · exact hw
  · rw [hheap] at hsome
    cases hsome
  · rw [wrap_of_lt ho] at hle
    omega

/-- The write of a turn that grows the file calls `kmalloc` once. -/
theorem zeroWrite_allocs (ho : (s.objects obj).offset + 1 < 2 ^ 64)
    (hsize : (s.nodes (s.objects obj).privateData).size ≤ (s.objects obj).offset) :
    (zeroWrite heap s obj).1.allocs = s.allocs + 1 := by
  rw [zeroWrite]
  rcases memfsWrite_cases heap s (s.objects obj).privateData (fun _ => 0) 1
    (s.objects obj).offset with ⟨-, -, hw⟩ | ⟨_, -, -, hw⟩ | ⟨hle, -⟩
  · rw [hw]
    rfl
  · rw [hw]
    rfl
  · rw [wrap_of_lt ho] at hle
    omega

/-- **When the loop gets to its end**: `kmalloc` has memory for each byte past the end of the
file. -/
theorem extendFile_done_iff (heap : Allocator) (s : Fs) (obj turns : ℕ) (hnew : new < 2 ^ 64)
    (hturns : new - (s.objects obj).offset ≤ turns) :
    (extendFile heap obj new turns s).2 = true ↔
      ∀ j < new - max (s.objects obj).offset (s.nodes (s.objects obj).privateData).size,
        heap (s.allocs + j) ≠ none := by
  induction turns generalizing s with
  | zero => exact iff_of_true rfl fun j hj => by omega
  | succ turns ih =>
    rw [extendFile_succ]
    by_cases hlt : (s.objects obj).offset < new
    swap
    · rw [if_neg hlt]
      exact iff_of_true rfl fun j hj => by omega
    rw [if_pos hlt]
    have ho : (s.objects obj).offset + 1 < 2 ^ 64 := by omega
    obtain ⟨hobj, -⟩ := nextTurn_objects heap ho
    have hdata := (sameButFile_nextTurn heap s obj).privateData
    have hrec := ih (s := nextTurn heap s obj) (by rw [hobj]; show new - (_ + 1) ≤ turns; omega)
    have hsize' : ((nextTurn heap s obj).nodes (s.objects obj).privateData).size =
        ((zeroWrite heap s obj).1.nodes (s.objects obj).privateData).size := rfl
    have hallocs' : (nextTurn heap s obj).allocs = (zeroWrite heap s obj).1.allocs := rfl
    have hgrown := zeroWrite_size heap s obj (s.objects obj).privateData
    rw [wrap_of_lt ho] at hgrown
    rw [hdata, hobj, hsize', hallocs'] at hrec
    dsimp only at hrec
    rcases zeroWrite_cases heap ho with ⟨hsize, hheap, hcode⟩ | ⟨hsize, hheap, hcode⟩ | ⟨hsize, hcode, hallocs⟩
    · -- there is no memory for this byte
      rw [if_pos (by rw [hcode]; decide)]
      exact iff_of_false nofun fun h => h 0 (by omega) hheap
    · -- there is: the rest of the bytes remain
      rw [if_pos ⟨rfl, hheap⟩, Nat.max_eq_right (by omega)] at hgrown
      rw [if_neg (by rw [hcode]; decide), hrec, hgrown, zeroWrite_allocs ho hsize, Nat.max_self,
        Nat.max_eq_left hsize]
      constructor
      · intro h j hj
        cases j with
        | zero => exact hheap
        | succ j =>
          have hj := h j (by omega)
          rwa [show s.allocs + 1 + j = s.allocs + (j + 1) by omega] at hj
      · intro h j hj
        rw [show s.allocs + 1 + j = s.allocs + (j + 1) by omega]
        exact h (j + 1) (by omega)
    · -- the byte is inside the file
      rw [Nat.max_eq_left hsize, ite_self] at hgrown
      rw [if_neg (by rw [hcode]; decide), hrec, hgrown, hallocs, Nat.max_eq_right hsize,
        Nat.max_eq_right hsize.le]

/-- The loop moves the offset forwards. -/
theorem extendFile_offset_le (heap : Allocator) (s : Fs) (obj turns : ℕ) (hnew : new < 2 ^ 64) :
    (s.objects obj).offset ≤ ((extendFile heap obj new turns s).1.objects obj).offset := by
  induction turns generalizing s with
  | zero => exact le_rfl
  | succ turns ih =>
    rw [extendFile_succ]
    split
    · rename_i hlt
      split
      · exact (congrArg FileObject.offset (congrFun (memfsWrite_frame ..).1 obj)).ge
      · have ho : (s.objects obj).offset + 1 < 2 ^ 64 := by omega
        obtain ⟨hobj, -⟩ := nextTurn_objects heap ho
        have hrec := ih (s := nextTurn heap s obj)
        rw [hobj] at hrec
        exact (Nat.le_succ _).trans hrec
    · exact le_rfl

/-! ### Seeks -/

theorem fdGet_some (h : fdGet s fd = some entry) : s.fdTable fd.toNat = some entry := by
  unfold fdGet at h
  split at h
  · exact h
  · cases h

/-- A seek that does not extend the file only stores the new offset. -/
theorem seekExtend_not (h : ¬ Extends (s.objects obj) new) :
    seekExtend heap s obj new = (s, true) := by
  unfold seekExtend
  split
  · rename_i hsize
    have hoffset : new ≤ (s.objects obj).offset := Nat.le_of_not_lt fun hlt => h ⟨hsize, hlt⟩
    rw [Nat.sub_eq_zero_of_le hoffset]
    rfl
  · rfl

/-- A seek that extends it runs through the loop. -/
theorem seekExtend_of (h : Extends (s.objects obj) new) :
    seekExtend heap s obj new =
      extendFile heap obj new (new - (s.objects obj).offset - 1 + 1) s := by
  unfold seekExtend
  rw [if_pos h.1, Nat.sub_add_cancel (Nat.sub_pos_of_lt h.2)]

/-- Storing the new offset keeps everything exactly if it was there already. -/
theorem kept_stored_iff (hentry : fdGet s fd = some entry) :
    SeekKept (setEntryOffset (s.setObject obj fun o => { o with offset := new }) fd new) s ↔
      (s.objects obj).offset = new ∧ entry.offset = new := by
  have hslot := fdGet_some hentry
  have htable : (setEntryOffset (s.setObject obj fun o => { o with offset := new }) fd new).fdTable =
      Function.update s.fdTable fd.toNat (some { entry with offset := new }) := by
    unfold setEntryOffset Fs.setEntry
    rw [show (s.setObject obj fun o => { o with offset := new }).fdTable = s.fdTable from rfl, hslot]
    rfl
  have hobjects : ((setEntryOffset (s.setObject obj fun o => { o with offset := new }) fd new).objects
      obj).offset = new := by
    rw [setEntryOffset_objects, Fs.setObject_self]
  constructor
  · intro h
    refine ⟨(h.objects obj).symm.trans hobjects, ?_⟩
    have hsame := congrFun h.fdTable fd.toNat
    rw [htable, Function.update_self, hslot] at hsame
    exact (congrArg FileDescriptor.offset (Option.some.inj hsame)).symm
  · rintro ⟨hobj, hfd⟩
    refine ⟨fun _ => rfl, fun _ _ _ => rfl, fun o => ?_, ?_⟩
    · by_cases ho : o = obj
      · rw [ho, hobjects, hobj]
      · rw [setEntryOffset_objects, Fs.setObject_of_ne _ _ ho]
    · rw [htable, ← hfd]
      exact Function.update_eq_self_iff.mpr hslot.symm

/-- A call of `kmalloc` keeps everything. -/
theorem kept_tick (s : Fs) : SeekKept s.tick s :=
  ⟨fun _ => rfl, fun _ _ _ => rfl, fun _ => rfl, rfl⟩

/-- A seek that stores its offset keeps everything if it is negative, exactly if it may. -/
theorem stored_atomic_iff (hentry : fdGet s fd = some entry) (hnew : new < 2 ^ 64) :
    (toSigned 64 new < 0 → SeekKept
        (setEntryOffset (s.setObject obj fun o => { o with offset := new }) fd new) s) ↔
      new < 2 ^ 63 ∨ ((s.objects obj).offset = new ∧ entry.offset = new) := by
  rw [toSigned_neg_iff hnew, kept_stored_iff hentry]
  constructor
  · intro h
    by_cases hlt : new < 2 ^ 63
    · exact .inl hlt
    · exact .inr (h (Nat.le_of_not_lt hlt))
  · intro h hneg
    exact h.resolve_left hneg.not_gt

/-- Without memory for the first byte an extension changes nothing. -/
theorem seekExtend_none (hnew : new < 2 ^ 64) (hext : Extends (s.objects obj) new)
    (hfirst : (s.nodes (s.objects obj).privateData).size ≤ (s.objects obj).offset ∧
      heap s.allocs = none) : seekExtend heap s obj new = (s.tick, false) := by
  have hlt := hext.2
  have hwrite := zeroWrite_none (by omega) hfirst.1 hfirst.2
  rw [seekExtend_of hext, extendFile_succ, if_pos hlt, hwrite]
  rfl

/-- With memory for the first byte, or where there is one, an extension moves the offset. -/
theorem seekExtend_moves (hnew : new < 2 ^ 64) (hext : Extends (s.objects obj) new)
    (hfirst : ¬ ((s.nodes (s.objects obj).privateData).size ≤ (s.objects obj).offset ∧
      heap s.allocs = none)) :
    (s.objects obj).offset < ((seekExtend heap s obj new).1.objects obj).offset := by
  have hlt := hext.2
  have ho : (s.objects obj).offset + 1 < 2 ^ 64 := by omega
  have hcode : (zeroWrite heap s obj).2 = 1 := by
    rcases zeroWrite_cases heap ho with ⟨hsize, hheap, -⟩ | ⟨-, -, hcode⟩ | ⟨-, hcode, -⟩
    · exact absurd ⟨hsize, hheap⟩ hfirst
    · exact hcode
    · exact hcode
  rw [seekExtend_of hext, extendFile_succ, if_pos hlt, if_neg (by rw [hcode]; decide)]
  have hle := extendFile_offset_le heap (nextTurn heap s obj) obj
    (new - (s.objects obj).offset - 1) hnew
  rw [(nextTurn_objects heap ho).1] at hle
  exact hle

/-- **A seek that extends the file** and returns a negative number keeps everything exactly if the
first byte has no memory, or all have and the offset is not negative. -/
theorem extended_atomic_iff (hnew : new < 2 ^ 64) (hext : Extends (s.objects obj) new)
    {r : Fs × ℤ}
    (hr : r = if (seekExtend heap s obj new).2 then
        (setEntryOffset ((seekExtend heap s obj new).1.setObject obj fun o =>
          { o with offset := new }) fd new, toSigned 64 new)
      else ((seekExtend heap s obj new).1, -1)) :
    (r.2 < 0 → SeekKept r.1 s) ↔
      ((s.nodes (s.objects obj).privateData).size ≤ (s.objects obj).offset ∧ heap s.allocs = none) ∨
        (new < 2 ^ 63 ∧
          ∀ j < new - max (s.objects obj).offset (s.nodes (s.objects obj).privateData).size,
            heap (s.allocs + j) ≠ none) := by
  have hlt := hext.2
  have hdone := extendFile_done_iff heap s obj (new - (s.objects obj).offset - 1 + 1) hnew (by omega)
  rw [← seekExtend_of hext] at hdone
  rw [← hdone]
  by_cases hfirst : (s.nodes (s.objects obj).privateData).size ≤ (s.objects obj).offset ∧
      heap s.allocs = none
  · -- nothing has happened when it fails
    rw [seekExtend_none hnew hext hfirst] at hr
    refine iff_of_true (fun _ => ?_) (.inl hfirst)
    rw [hr]
    exact kept_tick s
  · -- the first byte is written, and the offset has moved
    have hmoved := seekExtend_moves hnew hext hfirst
    rw [or_iff_right hfirst]
    by_cases hall : (seekExtend heap s obj new).2 = true
    · rw [if_pos hall] at hr
      rw [hr, toSigned_neg_iff hnew]
      constructor
      · intro h
        refine ⟨?_, hall⟩
        by_contra hneg
        have hsame := (h (Nat.le_of_not_lt hneg)).objects obj
        rw [setEntryOffset_objects, Fs.setObject_self] at hsame
        dsimp only at hsame
        omega
      · intro h hneg
        exact absurd h.1 hneg.not_gt
    · rw [if_neg hall] at hr
      rw [hr]
      refine iff_of_false (fun h => ?_) fun h => hall h.2
      exact hmoved.ne' ((h neg_one_lt_zero).objects obj)

/-- **A negative target fails**: the result is negative. -/
theorem lseek_negative (heap : Allocator) (hoffset : -2 ^ 63 ≤ offset) {target : ℤ}
    (hobj : openObject s fd = some obj)
    (htarget : exactTarget (s.objects obj) offset whence = some target) (hneg : target < 0) :
    (syscallLseek heap s fd offset whence).2 < 0 := by
  have hseek : seekTarget (s.objects obj) offset whence = some (ofInt 64 target) := by
    rw [seekTarget_eq, htarget]
    rfl
  rw [syscallLseek_eq heap hobj hseek]
  split
  · exact (toSigned_neg_iff (ofInt_lt ..)).mpr (ofInt_neg (exactTarget_ge hoffset htarget) hneg)
  · exact neg_one_lt_zero

/-- **A seek is atomic** exactly if its target is allowed. -/
theorem lseekAtomic_iff (hoffset : -2 ^ 63 ≤ offset) :
    LseekAtomic heap s fd offset whence ↔ LseekOk heap s fd offset whence := by
  have hsecond : ∀ obj target, openObject s fd = some obj →
      exactTarget (s.objects obj) offset whence = some target → target < 0 →
        (syscallLseek heap s fd offset whence).2 < 0 :=
    fun obj target hobj htarget hneg => lseek_negative heap hoffset hobj htarget hneg
  unfold LseekAtomic
  rw [and_iff_left hsecond]
  by_cases hgood : ∃ obj target, openObject s fd = some obj ∧
      exactTarget (s.objects obj) offset whence = some target
  · obtain ⟨obj, target, hobj, htarget⟩ := hgood
    obtain ⟨entry, hentry, hfile⟩ := Option.bind_eq_some_iff.mp hobj
    have hnew : seekTarget (s.objects obj) offset whence = some (ofInt 64 target) := by
      rw [seekTarget_eq, htarget]
      rfl
    have hlt := seekTarget_lt hnew
    have hok : LseekOk heap s fd offset whence ↔ SeekAllowed heap s entry obj (ofInt 64 target) := by
      constructor
      · intro h
        exact h entry obj target hentry hfile htarget
      · intro h entry' obj' target' hentry' hfile' htarget'
        obtain rfl := Option.some.inj (hentry.symm.trans hentry')
        obtain rfl := Option.some.inj (hfile.symm.trans hfile')
        obtain rfl := Option.some.inj (htarget.symm.trans htarget')
        exact h
    rw [hok, SeekAllowed, syscallLseek_eq heap hobj hnew]
    by_cases hext : Extends (s.objects obj) (ofInt 64 target)
    · rw [extended_atomic_iff hlt hext rfl]
      exact ⟨fun h => ⟨fun _ => h, fun hno => absurd hext hno⟩, fun h => h.1 hext⟩
    · rw [seekExtend_not hext, if_pos rfl, stored_atomic_iff hentry hlt]
      exact ⟨fun h => ⟨fun hyes => absurd hyes hext, fun _ => h⟩, fun h => h.2 hext⟩
  · -- the call fails at once
    have hno : syscallLseek heap s fd offset whence = (s, -1) := by
      refine (syscallLseek_cases heap s fd offset whence).resolve_right ?_
      rintro ⟨obj, new, hobj, hnew⟩
      rw [seekTarget_eq] at hnew
      obtain ⟨target, htarget, -⟩ := Option.map_eq_some_iff.mp hnew
      exact hgood ⟨obj, target, hobj, htarget⟩
    rw [hno]
    refine iff_of_true (fun _ => ⟨fun _ => rfl, fun _ _ _ => rfl, fun _ => rfl, rfl⟩) ?_
    intro entry obj target hentry hfile htarget
    exact absurd ⟨obj, target, Option.bind_eq_some_iff.mpr ⟨entry, hentry, hfile⟩, htarget⟩ hgood

/-! ### Runs -/

/-- **When seeks are atomic**: in every state that a run reaches, from `fs_init` or any other state,
for every descriptor, offset and `whence`. -/
theorem lseek_atomic_iff (heap : Allocator) (s : Fs) (calls : List (FileCall ⊕ NsCall)) :
    Always (fsStep heap) (fun s => ∀ fd offset whence, -2 ^ 63 ≤ offset → offset < 2 ^ 63 →
      (LseekAtomic heap s fd offset whence ↔ LseekOk heap s fd offset whence)) s calls :=
  always_of_step (fun _ _ _ _ _ _ _ _ hlow _ => lseekAtomic_iff hlow)
    fun _ _ _ hlow _ => lseekAtomic_iff hlow

/-- A `kmalloc` that fails at its eleventh call, the fourth after `fs_init`. -/
def eleventhFails : Allocator := fun n => if n = 10 then none else zeroedHeap n

/-- `hello.txt` has 35 bytes; a seek to the offset 37 has memory for one byte more. -/
theorem lseek_half_extended : ¬ ∀ (heap : Allocator) (s : Fs), fsInit heap = some s →
    ∀ calls, Always (fsStep heap) (fun s => ∀ fd offset whence, -2 ^ 63 ≤ offset → offset < 2 ^ 63 →
      LseekAtomic heap s fd offset whence) s calls := by
  intro h
  have hinit : fsInit eleventhFails = some startedFs := rfl
  have hatomic := (h eleventhFails startedFs hinit
    [.inl (.open (bytesOf "/memfs/hello.txt") 0 0)]).2 _ rfl 0 37 0 (by decide) (by decide)
  have hsize := (hatomic.1 (by decide +kernel)).size 2
  revert hsize
  decide +kernel

end PrismaticOS.Kernel
