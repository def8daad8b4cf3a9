import PrismaticOS.Library.Memory
import PrismaticOS.Library.Words

/-!
# `fread` and `fwrite`

Streams of `libc/src/stdio/fileops.c`. They keep no buffer: each call of `fread` makes one call of
`read`, and each call of `fwrite` one of `write`.

## The model

A stream is `none` for `NULL`, and a buffer 0. The kernel has a state of its own, and answers a call
as it likes, but for the number of bytes (`Kernel`). The bytes that the call has moved are part of
the result. The fields of a `FILE` for a buffer are left out.

## What is proved

* `fread_explained`, `fwrite_explained` — the exact condition for a count that is too small to be
  explained by a flag.
* `short_counts_iff` — the two conditions.
* `short_count_unexplained` — one byte of two, and no flag.
-/

namespace PrismaticOS.Libc

open PrismaticOS.Library

/-! ### The functions -/

/-- A `FILE`. -/
structure File where
  /-- The descriptor. -/
  fd : ℤ
  /-- `FILE_TYPE_READ` and the others. -/
  flags : ℕ
  /-- The end was reached. -/
  eof : Bool
  /-- There was an error. -/
  error : Bool

/-- `FILE_TYPE_READ`. -/
def fileTypeRead : ℕ := 1

/-- `FILE_TYPE_WRITE`. -/
def fileTypeWrite : ℕ := 2

/-- `FILE_TYPE_APPEND`. -/
def fileTypeAppend : ℕ := 4

/-- What `read` and `write` do. -/
structure Kernel (σ : Type*) where
  /-- `read(fd, buf, count)`: the bytes that are stored, or nothing for an error. -/
  read : σ → ℤ → ℕ → Option (List UInt8) × σ
  /-- `write(fd, buf, count)`, with the bytes of the buffer: how many were written, or nothing for an
  error. -/
  write : σ → ℤ → List UInt8 → Option ℕ × σ
  /-- No more is read than was asked for. -/
  read_le : ∀ s fd count, ∀ bytes ∈ (read s fd count).1, bytes.length ≤ count
  /-- No more is written than there is. -/
  write_le : ∀ s fd bytes, ∀ result ∈ (write s fd bytes).1, result ≤ bytes.length

/-- What a call of `fread` or `fwrite` leaves. -/
structure Transfer (σ : Type*) where
  /-- What is returned. -/
  count : ℕ
  /-- The stream. -/
  stream : Option File
  /-- The memory. -/
  mem : Mem
  /-- The kernel. -/
  state : σ
  /-- The bytes that were read or written. -/
  moved : List UInt8

section
variable {σ : Type*}

/-- `fread`. -/
def fread (k : Kernel σ) (s : σ) (m : Mem) (ptr size nmemb : ℕ) : Option File → Transfer σ
  | none => ⟨0, none, m, s, []⟩
  | some stream =>
    if ptr = 0 ∨ size = 0 ∨ nmemb = 0 then ⟨0, some stream, m, s, []⟩
    else
      let totalBytes := wrap 64 (size * nmemb)
      if stream.flags &&& fileTypeRead = 0 then ⟨0, some { stream with error := true }, m, s, []⟩
      else
        match k.read s stream.fd totalBytes with
        | (none, s) => ⟨0, some { stream with error := true }, m, s, []⟩
        | (some bytes, s) =>
          if bytes = [] then ⟨0, some { stream with eof := true }, m, s, []⟩
          else ⟨bytes.length / size, some stream, storeBytes m ptr bytes, s, bytes⟩

/-- `fwrite`. -/
def fwrite (k : Kernel σ) (s : σ) (m : Mem) (ptr size nmemb : ℕ) : Option File → Transfer σ
  | none => ⟨0, none, m, s, []⟩
  | some stream =>
    if ptr = 0 ∨ size = 0 ∨ nmemb = 0 then ⟨0, some stream, m, s, []⟩
    else
      let totalBytes := wrap 64 (size * nmemb)
      if stream.flags &&& (fileTypeWrite ||| fileTypeAppend) = 0 then
        ⟨0, some { stream with error := true }, m, s, []⟩
      else
        match k.write s stream.fd (loadBytes m ptr totalBytes) with
        | (none, s) => ⟨0, some { stream with error := true }, m, s, []⟩
        | (some result, s) =>
          ⟨result / size, some stream, m, s, (loadBytes m ptr totalBytes).take result⟩

/-- `feof`. -/
def feof : Option File → Bool
  | some stream => stream.eof
  | none => true

/-- `ferror`. -/
def ferror : Option File → Bool
  | some stream => stream.error
  | none => true

/-! ### What a count should say -/

/-- The count is at most what was asked for, so many elements of the buffer were moved, and if there
are fewer than were asked for, the flag is set. -/
structure Explained (r : Transfer σ) (m : Mem) (ptr size nmemb : ℕ) (flag : Prop) : Prop where
  /-- Not more than was asked for. -/
  bounded : r.count ≤ nmemb
  /-- The elements were moved. -/
  transferred : r.moved.take (r.count * size) = loadBytes m ptr (r.count * size)
  /-- A count that is too small. -/
  short : r.count < nmemb → flag

/-- `read` is not called, fails, finds the end, or reads everything; or a flag was set before. -/
def ReadAll (k : Kernel σ) (s : σ) (ptr size nmemb : ℕ) : Option File → Prop
  | none => True
  | some stream => stream.error = true ∨ stream.eof = true ∨ ptr ≠ 0 ∧
      (stream.flags &&& fileTypeRead = 0 ∨
        ∀ bytes ∈ (k.read s stream.fd (wrap 64 (size * nmemb))).1,
          bytes = [] ∨ size * nmemb ≤ bytes.length)

/-- `write` is not called, fails, or writes everything; or the flag was set before. -/
def WroteAll (k : Kernel σ) (s : σ) (m : Mem) (ptr size nmemb : ℕ) : Option File → Prop
  | none => True
  | some stream => stream.error = true ∨ ptr ≠ 0 ∧
      (stream.flags &&& (fileTypeWrite ||| fileTypeAppend) = 0 ∨
        ∀ result ∈ (k.write s stream.fd (loadBytes m ptr (wrap 64 (size * nmemb)))).1,
          size * nmemb ≤ result)

variable {k : Kernel σ} {s : σ} {m : Mem} {ptr size nmemb n : ℕ} {r : Transfer σ} {flag : Prop}

/-! ### Counts -/

/-- A call of `fread` that gets bytes, or finds the end. -/
theorem fread_bytes {stream : File} {bytes : List UInt8} {s' : σ} (m : Mem)
    (hargs : ¬ (ptr = 0 ∨ size = 0 ∨ nmemb = 0)) (hflags : stream.flags &&& fileTypeRead ≠ 0)
    (hread : k.read s stream.fd (wrap 64 (size * nmemb)) = (some bytes, s')) :
    fread k s m ptr size nmemb (some stream) =
      if bytes = [] then ⟨0, some { stream with eof := true }, m, s', []⟩
      else ⟨bytes.length / size, some stream, storeBytes m ptr bytes, s', bytes⟩ := by
  rw [fread, if_neg hargs, if_neg hflags, hread]

/-- Nothing was moved. -/
theorem explained_zero (hcount : r.count = 0) (hnmemb : 0 < nmemb) :
    Explained r m ptr size nmemb flag ↔ flag := by
  refine ⟨fun h => h.short (hcount ▸ hnmemb), fun hflag => ⟨?_, ?_, fun _ => hflag⟩⟩
  · rw [hcount]
    exact Nat.zero_le nmemb
  · rw [hcount, Nat.zero_mul]
    rfl

/-- As many elements as there are in what was moved. -/
theorem explained_div (hcount : r.count = n / size) (hsize : 0 < size)
    (hn : n ≤ wrap 64 (size * nmemb))
    (hmoved : r.moved.take (n / size * size) = loadBytes m ptr (n / size * size)) :
    Explained r m ptr size nmemb flag ↔ flag ∨ size * nmemb ≤ n := by
  have hle : n ≤ size * nmemb := hn.trans (Nat.mod_le _ _)
  have hshort : n / size < nmemb ↔ ¬ size * nmemb ≤ n := by
    rw [Nat.div_lt_iff_lt_mul hsize, Nat.mul_comm nmemb, Nat.not_le]
  constructor
  · intro h
    by_cases hall : size * nmemb ≤ n
    · exact .inr hall
    · exact .inl (h.short (by rwa [hcount, hshort]))
  · intro h
    refine ⟨?_, by rwa [hcount], fun hlt => ?_⟩
    · rw [hcount]
      exact Nat.div_le_of_le_mul hle
    · rw [hcount, hshort] at hlt
      exact h.resolve_right hlt

/-- **`fread`.** -/
theorem fread_explained (hsize : 0 < size) (hnmemb : 0 < nmemb) (stream : Option File) :
    Explained (fread k s m ptr size nmemb stream) (fread k s m ptr size nmemb stream).mem ptr size
        nmemb (ferror (fread k s m ptr size nmemb stream).stream = true ∨
          feof (fread k s m ptr size nmemb stream).stream = true) ↔
      ReadAll k s ptr size nmemb stream := by
  cases stream with
  | none => exact (explained_zero rfl hnmemb).trans (iff_of_true (.inl rfl) trivial)
  | some stream =>
    have hargs : (ptr = 0 ∨ size = 0 ∨ nmemb = 0) ↔ ptr = 0 := by omega
    rw [fread, ReadAll]
    simp only [hargs]
    by_cases hptr : ptr = 0
    · rw [if_pos hptr, explained_zero rfl hnmemb, ferror, feof]
      simp only [hptr, ne_eq, not_true_eq_false, false_and, or_false]
    rw [if_neg hptr]
    by_cases hflags : stream.flags &&& fileTypeRead = 0
    · rw [if_pos hflags, explained_zero rfl hnmemb]
      exact iff_of_true (.inl rfl) (.inr (.inr ⟨hptr, .inl hflags⟩))
    rw [if_neg hflags]
    have hread := k.read_le s stream.fd (wrap 64 (size * nmemb))
    generalize k.read s stream.fd (wrap 64 (size * nmemb)) = answer at hread
    obtain ⟨bytes, s'⟩ := answer
    rw [or_iff_right hflags, and_iff_right hptr, ← or_assoc]
    cases bytes with
    | none =>
      exact (explained_zero rfl hnmemb).trans (iff_of_true (.inl rfl) (.inr fun _ h => nomatch h))
    | some bytes =>
      simp only [Option.mem_def, Option.some.injEq, forall_eq']
      by_cases hnil : bytes = []
      · rw [if_pos hnil]
        exact (explained_zero rfl hnmemb).trans (iff_of_true (.inr rfl) (.inr (.inl hnil)))
      · rw [if_neg hnil, or_iff_right hnil]
        refine explained_div rfl hsize (hread bytes rfl) ?_
        exact (loadBytes_storeBytes m ptr (Nat.div_mul_le_self ..)).symm

/-- **`fwrite`.** -/
theorem fwrite_explained (hsize : 0 < size) (hnmemb : 0 < nmemb) (stream : Option File) :
    Explained (fwrite k s m ptr size nmemb stream) m ptr size nmemb
        (ferror (fwrite k s m ptr size nmemb stream).stream = true) ↔
      WroteAll k s m ptr size nmemb stream := by
  cases stream with
  | none => exact (explained_zero rfl hnmemb).trans (iff_of_true rfl trivial)
  | some stream =>
    have hargs : (ptr = 0 ∨ size = 0 ∨ nmemb = 0) ↔ ptr = 0 := by omega
    rw [fwrite, WroteAll]
    simp only [hargs]
    by_cases hptr : ptr = 0
    · rw [if_pos hptr, explained_zero rfl hnmemb, ferror]
      simp only [hptr, ne_eq, not_true_eq_false, false_and, or_false]
    rw [if_neg hptr]
    by_cases hflags : stream.flags &&& (fileTypeWrite ||| fileTypeAppend) = 0
    · rw [if_pos hflags, explained_zero rfl hnmemb]
      exact iff_of_true rfl (.inr ⟨hptr, .inl hflags⟩)
    rw [if_neg hflags]
    have hwrite := k.write_le s stream.fd (loadBytes m ptr (wrap 64 (size * nmemb)))
    rw [length_loadBytes] at hwrite
    generalize k.write s stream.fd (loadBytes m ptr (wrap 64 (size * nmemb))) = answer at hwrite
    obtain ⟨result, s'⟩ := answer
    rw [or_iff_right hflags, and_iff_right hptr]
    cases result with
    | none => exact (explained_zero rfl hnmemb).trans (iff_of_true rfl (.inr fun _ h => nomatch h))
    | some result =>
      simp only [Option.mem_def, Option.some.injEq, forall_eq']
      have hle := hwrite result rfl
      refine explained_div rfl hsize hle ?_
      have hcount : result / size * size ≤ result := Nat.div_mul_le_self ..
      rw [List.take_take, Nat.min_eq_left hcount, take_loadBytes m ptr (hcount.trans hle)]

/-- **Short counts.** A count of `fread` or of `fwrite` that is too small is explained by a flag
exactly if the kernel did not move some of the bytes only. -/
theorem short_counts_iff (k : Kernel σ) (s : σ) (m : Mem) (ptr : ℕ) (hsize : 0 < size)
    (hnmemb : 0 < nmemb) (stream : Option File) :
    (Explained (fread k s m ptr size nmemb stream) (fread k s m ptr size nmemb stream).mem ptr size
        nmemb (ferror (fread k s m ptr size nmemb stream).stream = true ∨
          feof (fread k s m ptr size nmemb stream).stream = true) ↔
      ReadAll k s ptr size nmemb stream) ∧
    (Explained (fwrite k s m ptr size nmemb stream) m ptr size nmemb
        (ferror (fwrite k s m ptr size nmemb stream).stream = true) ↔
      WroteAll k s m ptr size nmemb stream) :=
  ⟨fread_explained hsize hnmemb stream, fwrite_explained hsize hnmemb stream⟩

end

/-- A kernel that moves one byte at a time. -/
def oneByte : Kernel Unit where
  read s _ count := (some ([65].take count), s)
  write s _ bytes := (some (min 1 bytes.length), s)
  read_le s fd count bytes h := by
    rw [← Option.some.inj h, List.length_take]
    exact Nat.min_le_left ..
  write_le s fd bytes result h := by
    rw [← Option.some.inj h]
    exact Nat.min_le_right ..

/-- Two elements of a byte each. -/
theorem short_counts_two : (0 < 1 ∧ 0 < 2) ∧
    (Explained (fread oneByte () (fun _ => 0) 8 1 2 (some ⟨3, 1, false, false⟩))
        (fread oneByte () (fun _ => 0) 8 1 2 (some ⟨3, 1, false, false⟩)).mem 8 1 2
        (ferror (fread oneByte () (fun _ => 0) 8 1 2 (some ⟨3, 1, false, false⟩)).stream = true ∨
          feof (fread oneByte () (fun _ => 0) 8 1 2 (some ⟨3, 1, false, false⟩)).stream = true) ↔
      ReadAll oneByte () 8 1 2 (some ⟨3, 1, false, false⟩)) :=
  ⟨by decide, (short_counts_iff oneByte () (fun _ => 0) 8 (by decide) (by decide) _).1⟩

/-- One byte of two is read or written, the count is 1, and no flag is set. -/
theorem short_count_unexplained :
    ¬ Explained (fread oneByte () (fun _ => 0) 8 1 2 (some ⟨3, 1, false, false⟩))
        (fread oneByte () (fun _ => 0) 8 1 2 (some ⟨3, 1, false, false⟩)).mem 8 1 2
        (ferror (fread oneByte () (fun _ => 0) 8 1 2 (some ⟨3, 1, false, false⟩)).stream = true ∨
          feof (fread oneByte () (fun _ => 0) 8 1 2 (some ⟨3, 1, false, false⟩)).stream = true) ∧
      ¬ Explained (fwrite oneByte () (fun _ => 0) 8 1 2 (some ⟨3, 2, false, false⟩)) (fun _ => 0) 8 1 2
        (ferror (fwrite oneByte () (fun _ => 0) 8 1 2 (some ⟨3, 2, false, false⟩)).stream = true) :=
  ⟨fun h => absurd (h.short (by decide)) (by decide),
    fun h => absurd (h.short (by decide)) (by decide)⟩

end PrismaticOS.Libc
