import PrismaticOS.Kernel.FsFiles

/-!
# Seeking

`syscall_lseek` extends a file when it is asked for an offset past the size that the
file object remembers. The loop that does so writes zeros from the offset of the
descriptor on, and not from the end of the file.

## What is proved

`seek_keeps_bytes` — in every state that any run of file calls reaches from `fs_init`, a
call of `syscall_lseek` leaves all bytes of all files below their size as they were
exactly if the new offset is not past the remembered size, or what the file has between
the offset of the descriptor and the new offset is zero already. `seek_zeroes` is a run
where this fails: a descriptor at the start of `hello.txt` seeks to one byte past its
end, and the whole text is gone.
-/

namespace PrismaticOS.Kernel

open PrismaticOS.Library

/-- `syscall_lseek` leaves the bytes of the files below their size as they were. -/
def Undamaged (heap : Allocator) (s : Fs) (fd offset whence : ℤ) : Prop :=
  ∀ m i, i < (s.nodes m).size →
    byteAt (syscallLseek heap s fd offset whence).1 m i = byteAt s m i

/-- If the descriptor is open and `whence` is good: the new offset is at most the size that
the file object has, or the bytes of the file from its offset to the new one are zero. -/
def SeekOk (s : Fs) (fd offset whence : ℤ) : Prop :=
  ∀ obj newOffset, openObject s fd = some obj →
    seekTarget (s.objects obj) offset whence = some newOffset →
      newOffset ≤ (s.objects obj).size ∨
        ∀ i, (s.objects obj).offset ≤ i → i < newOffset →
          i < (s.nodes (s.objects obj).privateData).size →
            byteAt s (s.objects obj).privateData i = some 0

variable {heap : Allocator} {s : Fs} {obj newOffset : ℕ} {fd offset whence : ℤ}

theorem byteAt_congr {s' : Fs} (h : s'.nodes = s.nodes) (m i : ℕ) :
    byteAt s' m i = byteAt s m i := by
  unfold byteAt
  rw [h]

/-- What a seek to an offset past the remembered size makes of a byte. -/
theorem byteAt_lseek (hb : Backed s) (hobj : openObject s fd = some obj)
    (hnew : seekTarget (s.objects obj) offset whence = some newOffset)
    (hlt : (s.objects obj).size < newOffset) {m i : ℕ} (hi : i < (s.nodes m).size) :
    byteAt (syscallLseek heap s fd offset whence).1 m i =
      if m = (s.objects obj).privateData ∧ (s.objects obj).offset ≤ i ∧ i < newOffset then some 0
      else byteAt s m i := by
  rw [byteAt_congr (syscallLseek_nodes heap hobj hnew)]
  unfold seekExtend
  rw [if_pos hlt]
  exact extendFile_bytes hb (seekTarget_lt hnew) le_rfl m i hi

/-- A seek that is not past the remembered size writes nothing. -/
theorem byteAt_lseek_le (hobj : openObject s fd = some obj)
    (hnew : seekTarget (s.objects obj) offset whence = some newOffset)
    (hle : newOffset ≤ (s.objects obj).size) (m i : ℕ) :
    byteAt (syscallLseek heap s fd offset whence).1 m i = byteAt s m i := by
  rw [byteAt_congr (syscallLseek_nodes heap hobj hnew)]
  unfold seekExtend
  rw [if_neg hle.not_gt]

/-- A seek keeps the files exactly under that condition. -/
theorem undamaged_iff (hb : Backed s) :
    Undamaged heap s fd offset whence ↔ SeekOk s fd offset whence := by
  constructor
  · intro h obj newOffset hobj hnew
    by_cases hle : newOffset ≤ (s.objects obj).size
    · exact .inl hle
    refine .inr fun i ho hi hsize => ?_
    have hbyte := h _ i hsize
    rw [byteAt_lseek hb hobj hnew (Nat.lt_of_not_le hle) hsize, if_pos ⟨rfl, ho, hi⟩] at hbyte
    exact hbyte.symm
  · intro h m i hi
    rcases syscallLseek_cases heap s fd offset whence with hno | ⟨obj, newOffset, hobj, hnew⟩
    · rw [hno]
    rcases h obj newOffset hobj hnew with hle | hzero
    · exact byteAt_lseek_le hobj hnew hle m i
    by_cases hle : newOffset ≤ (s.objects obj).size
    · exact byteAt_lseek_le hobj hnew hle m i
    rw [byteAt_lseek hb hobj hnew (Nat.lt_of_not_le hle) hi]
    split
    · rename_i hin
      obtain ⟨rfl, ho, hlt⟩ := hin
      exact (hzero i ho hlt hi).symm
    · rfl

/-- **When seeking keeps the files**: in every state of every run from `fs_init`, for every
descriptor, offset and `whence`. -/
theorem seek_keeps_bytes (heap : Allocator) (s : Fs) (h : fsInit heap = some s)
    (calls : List FileCall) :
    Always (fileStep heap)
      (fun s => ∀ fd offset whence, Undamaged heap s fd offset whence ↔ SeekOk s fd offset whence)
      s calls :=
  (backed_always h calls).mono fun _ hb _ _ _ => undamaged_iff hb

/-- Two descriptors are opened for the same file, and one of them writes to it. -/
theorem seek_keeps_bytes_twice :
    fsInit zeroedHeap = some startedFs ∧
      Always (fileStep zeroedHeap)
        (fun s => ∀ fd offset whence,
          Undamaged zeroedHeap s fd offset whence ↔ SeekOk s fd offset whence)
        startedFs
        [.open (bytesOf "/memfs/hello.txt") 0 0, .open (bytesOf "/memfs/hello.txt") 0 0,
          .write 0 (fun _ => 65) 50] :=
  ⟨startedFs_eq, seek_keeps_bytes zeroedHeap startedFs startedFs_eq _⟩

/-- A seek to one byte past the end of `hello.txt`, right after it was opened, writes zeros
over its text. -/
theorem seek_zeroes :
    fsInit zeroedHeap = some startedFs ∧
      ¬ Always (fileStep zeroedHeap)
        (fun s => ∀ fd offset whence, Undamaged zeroedHeap s fd offset whence) startedFs
        [.open (bytesOf "/memfs/hello.txt") 0 0] := by
  refine ⟨startedFs_eq, fun h => ?_⟩
  have hlast := h.2 _ rfl 0 36 0 2 0 (by decide +kernel)
  have hbefore : byteAt (syscallOpen zeroedHeap startedFs (bytesOf "/memfs/hello.txt") 0 0).1 2 0 =
      some 72 := by decide +kernel
  have hafter : byteAt (syscallLseek zeroedHeap
      (syscallOpen zeroedHeap startedFs (bytesOf "/memfs/hello.txt") 0 0).1 0 36 0).1 2 0 =
        some 0 := by decide +kernel
  rw [hbefore, hafter] at hlast
  exact absurd hlast (by decide)

end PrismaticOS.Kernel
