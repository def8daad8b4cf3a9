import PrismaticOS.Libc.LineReading
import PrismaticOS.Libc.Search
import PrismaticOS.Libc.Strlen

/-!
# Streams from `fopen` to `fclose`

`fopen`, `fdopen`, `fclose`, `fputc` and `fputs` of `libc/src/stdio/fileops.c`, with `init_stdio`,
`parse_mode` and `mode_to_open_flags`.

## The model

The kernel opens and closes files as well (`FileKernel`). `malloc` is an oracle: `memory n` tells
whether its `n`-th call for a `FILE` returns one. A `FILE` is a value, without the fields for a
buffer: `buffer` is `NULL` in every stream that these functions make, so `fclose` has nothing to
flush. A mode is a string, or `none` for `NULL`.

## What is proved

* `putCalls_accepted` — calls of `fputs`, `fputc` and `fwrite` one after the other succeed and
  write their texts behind one another, to a kernel that takes all of what it is given.
* `readsPieces_of_delivers` — calls of `fgets` read what a kernel delivers that need only do so in
  some of its states.
-/

namespace PrismaticOS.Libc

open PrismaticOS.Library

/-! ### The functions -/

/-- What `open` and `close` do, too. -/
structure FileKernel (σ : Type*) extends Kernel σ where
  /-- `open(pathname, flags, mode)`. -/
  openFile : σ → Str → ℕ → ℕ → ℤ × σ
  /-- `close(fd)`. -/
  closeFile : σ → ℤ → ℤ × σ

/-- The variables of `fileops.c`, and the kernel. -/
structure Stdio (σ : Type*) where
  /-- The kernel. -/
  kernel : σ
  /-- `initialized` of `init_stdio`. -/
  initialized : Bool
  /-- `stdin`. -/
  stdin : Option File
  /-- `stdout`. -/
  stdout : Option File
  /-- `stderr`. -/
  stderr : Option File
  /-- How many calls of `malloc` were made. -/
  mallocs : ℕ

section
variable {σ : Type*}

/-- `malloc(sizeof(FILE))`, and the fields of the stream. -/
def newFile (memory : ℕ → Bool) (io : Stdio σ) (fd : ℤ) (flags : ℕ) : Option File × Stdio σ :=
  (if memory io.mallocs then some ⟨fd, flags, false, false⟩ else none,
    { io with mallocs := io.mallocs + 1 })

/-- `init_stdio`. -/
def initStdio (memory : ℕ → Bool) (io : Stdio σ) : Stdio σ :=
  if io.initialized then io
  else
    let (stdin, io) := newFile memory io 0 fileTypeRead
    let (stdout, io) := newFile memory io 1 fileTypeWrite
    let (stderr, io) := newFile memory io 2 fileTypeWrite
    { io with stdin := stdin, stdout := stdout, stderr := stderr, initialized := true }

/-- `parse_mode`: nothing for -1. -/
def parseMode : Option Str → Option ℕ
  | none => none
  | some mode =>
    if mode.getD 0 0 = chr 'r' then
      some (if mode.getD 1 0 = chr '+' then fileTypeRead ||| fileTypeWrite else fileTypeRead)
    else if mode.getD 0 0 = chr 'w' then
      some (if mode.getD 1 0 = chr '+' then fileTypeWrite ||| fileTypeRead else fileTypeWrite)
    else if mode.getD 0 0 = chr 'a' then
      some (if mode.getD 1 0 = chr '+' then fileTypeAppend ||| fileTypeRead else fileTypeAppend)
    else none

/-- `O_RDONLY`. -/
def oRdonly : ℕ := 0

/-- `O_WRONLY`. -/
def oWronly : ℕ := 1

/-- `O_RDWR`. -/
def oRdwr : ℕ := 2

/-- `O_CREAT`. -/
def oCreat : ℕ := 0x40

/-- `O_TRUNC`. -/
def oTrunc : ℕ := 0x200

/-- `O_APPEND`. -/
def oAppend : ℕ := 0x400

/-- `mode_to_open_flags`. -/
def modeToOpenFlags (modeFlags : ℕ) : ℕ :=
  if modeFlags &&& fileTypeRead ≠ 0 then
    if modeFlags &&& fileTypeWrite ≠ 0 then oRdwr else oRdonly
  else if modeFlags &&& fileTypeWrite ≠ 0 then oWronly ||| oCreat ||| oTrunc
  else if modeFlags &&& fileTypeAppend ≠ 0 then oWronly ||| oCreat ||| oAppend
  else 0

/-- `fdopen`. -/
def fdopen (memory : ℕ → Bool) (io : Stdio σ) (fd : ℤ) (mode : Option Str) :
    Option File × Stdio σ :=
  match parseMode mode with
  | none => (none, initStdio memory io)
  | some modeFlags => newFile memory (initStdio memory io) fd modeFlags

/-- `fopen`. A descriptor without a `FILE` stays open. -/
def fopen (k : FileKernel σ) (memory : ℕ → Bool) (io : Stdio σ) (pathname : Str)
    (mode : Option Str) : Option File × Stdio σ :=
  let io := initStdio memory io
  match parseMode mode with
  | none => (none, io)
  | some modeFlags =>
    let (fd, s) := k.openFile io.kernel pathname (modeToOpenFlags modeFlags) 0o644
    if fd < 0 then (none, { io with kernel := s })
    else fdopen memory { io with kernel := s } fd mode

/-- `fclose`. -/
def fclose (k : FileKernel σ) (io : Stdio σ) : Option File → ℤ × Stdio σ
  | none => (endOfFile, io)
  | some stream =>
    let (result, s) := k.closeFile io.kernel stream.fd
    (if result = 0 then 0 else endOfFile, { io with kernel := s })

/-- `fputc`. -/
def fputc (k : Kernel σ) (s : σ) (c : ℤ) : Option File → ℤ × Option File × σ
  | none => (endOfFile, none, s)
  | some stream =>
    let result := fwrite k s (fun _ => UInt8.ofNat (ofInt 8 c)) 1 1 1 (some stream)
    (if result.count ≠ 1 then endOfFile else c, result.stream, result.state)

/-- `fputs`, if `strlen` returns. -/
def fputs (k : Kernel σ) (s : σ) (m : Mem) (str : ℕ) (stream : Option File) :
    Option (ℤ × Option File × σ) :=
  if str = 0 ∨ stream.isNone then some (endOfFile, stream, s)
  else
    (strlen m str).map fun len =>
      let result := fwrite k s m str 1 len.length stream
      (if result.count ≠ len.length then endOfFile else 0, result.stream, result.state)

/-- A call that writes to a stream. -/
inductive PutCall where
  /-- `fputs(str, stream)`. -/
  | puts (str : ℕ)
  /-- `fputc(c, stream)`. -/
  | putc (c : ℤ)
  /-- `fwrite(ptr, size, nmemb, stream)`. -/
  | write (ptr size nmemb : ℕ)

/-- What a call returns and leaves. -/
def putCall (k : Kernel σ) (m : Mem) (s : σ) (stream : Option File) :
    PutCall → Option (ℤ × Option File × σ)
  | .puts str => fputs k s m str stream
  | .putc c => some (fputc k s c stream)
  | .write ptr size nmemb =>
    let result := fwrite k s m ptr size nmemb stream
    some (result.count, result.stream, result.state)

/-- Calls one after the other: what each of them returns, and what they leave. -/
def putCalls (k : Kernel σ) (m : Mem) (s : σ) (stream : Option File) :
    List PutCall → Option (List ℤ × Option File × σ)
  | [] => some ([], stream, s)
  | call :: calls =>
    (putCall k m s stream call).bind fun (result, stream, s) =>
      (putCalls k m s stream calls).map fun (results, after) => (result :: results, after)

/-! ### What should be written and read -/

/-- What a call is to write. -/
inductive PutCall.Writes (m : Mem) : PutCall → Str → Prop where
  /-- A string. -/
  | puts {str : ℕ} {text : Str} : str ≠ 0 → str + text.length < 2 ^ 64 → IsString m str text →
      Writes m (.puts str) text
  /-- A character. -/
  | putc (c : ℤ) : Writes m (.putc c) [UInt8.ofNat (ofInt 8 c)]
  /-- Elements. -/
  | write {ptr size nmemb : ℕ} : ptr ≠ 0 → 0 < size → size * nmemb < 2 ^ 64 →
      Writes m (.write ptr size nmemb) (loadBytes m ptr (size * nmemb))

/-- What a call returns that writes it. -/
def PutCall.success : PutCall → ℤ
  | .puts _ => 0
  | .putc c => c
  | .write _ _ nmemb => nmemb

/-- The descriptor takes all that is written, less than `limit` bytes, behind what it has taken. -/
def Accepts (k : Kernel σ) (fd : ℤ) (limit : ℕ) (taken : List UInt8 → σ → Prop) : Prop :=
  ∀ s acc bytes, taken acc s → (acc ++ bytes).length < limit →
    ∃ s', k.write s fd bytes = (some bytes.length, s') ∧ taken (acc ++ bytes) s'

/-- The descriptor delivers the bytes that are left, and nothing at their end. -/
structure Delivers (k : Kernel σ) (fd : ℤ) (left : List UInt8 → σ → Prop) : Prop where
  /-- The next byte. -/
  byte : ∀ s c rest, left (c :: rest) s → ∃ s', k.read s fd 1 = (some [c], s') ∧ left rest s'
  /-- The end. -/
  done : ∀ s, left [] s → ∃ s', k.read s fd 1 = (some [], s') ∧ left [] s'

/-- The stream writes to the descriptor. -/
structure Writable (stream : File) (fd : ℤ) : Prop where
  /-- Its descriptor. -/
  fd : stream.fd = fd
  /-- It was opened for writing. -/
  writable : stream.flags &&& (fileTypeWrite ||| fileTypeAppend) ≠ 0

variable {k : Kernel σ} {fd : ℤ} {limit : ℕ} {taken left : List UInt8 → σ → Prop} {stream : File}
  {s : σ} {m : Mem} {acc text rest : List UInt8}

/-! ### Opening -/

@[simp] theorem initStdio_kernel (memory : ℕ → Bool) (io : Stdio σ) :
    (initStdio memory io).kernel = io.kernel := by
  unfold initStdio
  split <;> rfl

section
variable {f : FileKernel σ} {memory : ℕ → Bool} {io io' : Stdio σ} {pathname : Str} {mode : Option Str}
  {modeFlags : ℕ}

/-- A stream that is opened has the descriptor that `open` returned. -/
theorem fopen_some (hmode : parseMode mode = some modeFlags)
    (h : fopen f memory io pathname mode = (some stream, io')) :
    0 ≤ (f.openFile io.kernel pathname (modeToOpenFlags modeFlags) 0o644).1 ∧
      stream = ⟨(f.openFile io.kernel pathname (modeToOpenFlags modeFlags) 0o644).1, modeFlags,
        false, false⟩ ∧
      io'.kernel = (f.openFile io.kernel pathname (modeToOpenFlags modeFlags) 0o644).2 := by
  simp only [fopen, fdopen, hmode, newFile, initStdio_kernel] at h
  split_ifs at h with hfd hmemory
  · exact absurd (Prod.mk.inj h).1 (Option.some_ne_none stream).symm
  · obtain ⟨hstream, rfl⟩ := Prod.mk.inj h
    exact ⟨not_lt.mp hfd, (Option.some.inj hstream).symm, rfl⟩
  · exact absurd (Prod.mk.inj h).1 (Option.some_ne_none stream).symm

/-- With memory, a stream is opened if `open` returns a descriptor. -/
theorem fopen_eq (hmemory : ∀ n, memory n = true) (hmode : parseMode mode = some modeFlags)
    (hfd : 0 ≤ (f.openFile io.kernel pathname (modeToOpenFlags modeFlags) 0o644).1) :
    ∃ io', fopen f memory io pathname mode =
        (some ⟨(f.openFile io.kernel pathname (modeToOpenFlags modeFlags) 0o644).1, modeFlags, false,
          false⟩, io') ∧
      io'.kernel = (f.openFile io.kernel pathname (modeToOpenFlags modeFlags) 0o644).2 := by
  simp only [fopen, fdopen, hmode, newFile, hmemory, if_true, initStdio_kernel, if_neg (not_lt.mpr hfd)]
  exact ⟨_, rfl, rfl⟩

end

/-! ### Writing -/

/-- **`fwrite`** writes all elements. -/
theorem fwrite_accepted (h : Accepts k fd limit taken) (hs : Writable stream fd) (htaken : taken acc s)
    {ptr size nmemb : ℕ} (hptr : ptr ≠ 0) (hsize : 0 < size) (hlt : size * nmemb < 2 ^ 64)
    (hlimit : (acc ++ loadBytes m ptr (size * nmemb)).length < limit) :
    ∃ s', (fwrite k s m ptr size nmemb (some stream)).count = nmemb ∧
      (fwrite k s m ptr size nmemb (some stream)).stream = some stream ∧
      (fwrite k s m ptr size nmemb (some stream)).state = s' ∧
      taken (acc ++ loadBytes m ptr (size * nmemb)) s' := by
  rcases Nat.eq_zero_or_pos nmemb with rfl | hpos
  · refine ⟨s, ?_⟩
    rw [fwrite, if_pos (.inr (.inr rfl)), Nat.mul_zero]
    exact ⟨rfl, rfl, rfl, by simpa [loadBytes] using htaken⟩
  obtain ⟨s', hwrite, htaken'⟩ := h s acc _ htaken hlimit
  refine ⟨s', ?_⟩
  rw [length_loadBytes] at hwrite
  have hargs : ¬ (ptr = 0 ∨ size = 0 ∨ nmemb = 0) := by omega
  have hcall : fwrite k s m ptr size nmemb (some stream) =
      ⟨size * nmemb / size, some stream, m, s',
        (loadBytes m ptr (size * nmemb)).take (size * nmemb)⟩ := by
    rw [fwrite, if_neg hargs, wrap_of_lt hlt, if_neg hs.writable, hs.fd, hwrite]
  rw [hcall, Nat.mul_div_cancel_left nmemb hsize]
  exact ⟨rfl, rfl, rfl, htaken'⟩

/-- **One call** writes its text. -/
theorem putCall_accepted (h : Accepts k fd limit taken) (hs : Writable stream fd) (htaken : taken acc s)
    {call : PutCall} (hcall : call.Writes m text) (hlimit : (acc ++ text).length < limit) :
    ∃ s', putCall k m s (some stream) call = some (call.success, some stream, s') ∧
      taken (acc ++ text) s' := by
  cases hcall with
  | @puts str text hstr hend htext =>
    have hload : loadBytes m str (1 * text.length) = text := by
      rw [Nat.one_mul]
      refine List.ext_getElem (length_loadBytes ..) fun i _ hi => ?_
      simp only [loadBytes, List.getElem_map, List.getElem_range]
      rw [htext.byte hi.le, List.getD_eq_getElem _ _ hi]
    rw [← hload] at hlimit
    obtain ⟨s', hcount, hstream, hstate, htaken'⟩ :=
      fwrite_accepted h hs htaken hstr Nat.one_pos (by omega) hlimit
    rw [hload] at htaken'
    refine ⟨s', ?_, htaken'⟩
    have hlen := strlen_least htext.isLeast hend
    obtain ⟨len, hstrlen, hlength⟩ := Option.map_eq_some_iff.mp hlen
    have hargs : ¬ (str = 0 ∨ (some stream).isNone) := by simpa using hstr
    rw [putCall, fputs, if_neg hargs, hstrlen, Option.map_some, hlength]
    dsimp only
    rw [hcount, hstream, hstate, if_neg (not_not.mpr rfl)]
    rfl
  | putc c =>
    have hlimit' : (acc ++ loadBytes (fun _ => UInt8.ofNat (ofInt 8 c)) 1 (1 * 1)).length < limit :=
      hlimit
    obtain ⟨s', hcount, hstream, hstate, htaken'⟩ :=
      fwrite_accepted h hs htaken Nat.one_ne_zero Nat.one_pos (by decide) hlimit'
    refine ⟨s', ?_, htaken'⟩
    rw [putCall, fputc, hcount, hstream, hstate, if_neg (not_not.mpr rfl)]
    rfl
  | @write ptr size nmemb hptr hsize hlt =>
    obtain ⟨s', hcount, hstream, hstate, htaken'⟩ :=
      fwrite_accepted h hs htaken hptr hsize hlt hlimit
    refine ⟨s', ?_, htaken'⟩
    rw [putCall, hcount, hstream, hstate]
    rfl

/-- **The calls** write their texts behind one another. -/
theorem putCalls_accepted (h : Accepts k fd limit taken) (hs : Writable stream fd)
    (htaken : taken acc s) {calls : List PutCall} {texts : List Str}
    (hcalls : List.Forall₂ (PutCall.Writes m) calls texts)
    (hlimit : (acc ++ texts.flatten).length < limit) :
    ∃ s', putCalls k m s (some stream) calls = some (calls.map PutCall.success, some stream, s') ∧
      taken (acc ++ texts.flatten) s' := by
  induction hcalls generalizing acc s with
  | nil => exact ⟨s, rfl, by simpa using htaken⟩
  | @cons call text calls texts hcall _ ih =>
    rw [List.flatten_cons, ← List.append_assoc] at hlimit ⊢
    have hfirst : (acc ++ text).length < limit := by
      rw [List.length_append] at hlimit
      omega
    obtain ⟨s₁, hput, htaken₁⟩ := putCall_accepted h hs htaken hcall hfirst
    obtain ⟨s₂, hputs, htaken₂⟩ := ih htaken₁ hlimit
    refine ⟨s₂, ?_, htaken₂⟩
    rw [putCalls, hput, Option.bind_some]
    dsimp only
    rw [hputs]
    rfl

/-! ### Reading -/

/-- A stream that was not opened for reading. -/
theorem fread_unreadable {τ : Type*} (k : Kernel τ) (s : τ) (m : Mem)
    (hflags : stream.flags &&& fileTypeRead = 0) :
    fread k s m 1 1 1 (some stream) = ⟨0, some { stream with error := true }, m, s, []⟩ := by
  rw [fread, if_neg (by decide), if_pos hflags]

/-- A read of one byte is one of `fileKernel`, which has the bytes themselves. -/
theorem Delivers.read (h : Delivers k fd left) (hleft : left rest s) :
    (k.read s fd 1).1 = (fileKernel.read rest fd 1).1 ∧
      left (fileKernel.read rest fd 1).2 (k.read s fd 1).2 := by
  cases rest with
  | nil =>
    obtain ⟨s', hread, hleft'⟩ := h.done s hleft
    rw [hread]
    exact ⟨rfl, hleft'⟩
  | cons c rest =>
    obtain ⟨s', hread, hleft'⟩ := h.byte s c rest hleft
    rw [hread]
    exact ⟨rfl, hleft'⟩

/-- So is a call of `fgetc`. -/
theorem fgetc_delivers (h : Delivers k fd left) (hfd : stream.fd = fd) (hleft : left rest s) :
    ∃ c stream' rest' s', fgetc fileKernel rest (some stream) = (c, some stream', rest') ∧
      fgetc k s (some stream) = (c, some stream', s') ∧ stream'.fd = fd ∧ left rest' s' := by
  obtain ⟨hsame, hnext⟩ := h.read hleft
  by_cases hflags : stream.flags &&& fileTypeRead = 0
  · refine ⟨endOfFile, { stream with error := true }, rest, s, ?_, ?_, hfd, hleft⟩
    · rw [fgetc, fread_unreadable fileKernel rest _ hflags]
      rfl
    · rw [fgetc, fread_unreadable k s _ hflags]
      rfl
  have hbytes : (fileKernel.read rest fd 1).1 = some (rest.take 1) := rfl
  have hread : k.read s stream.fd (wrap 64 (1 * 1)) = (some (rest.take 1), (k.read s fd 1).2) := by
    rw [wrap_one, hfd]
    exact Prod.ext (hsame.trans hbytes) rfl
  have hfile : fileKernel.read rest stream.fd (wrap 64 (1 * 1)) =
      (some (rest.take 1), (fileKernel.read rest fd 1).2) := by
    rw [wrap_one, hfd]
    rfl
  rw [fgetc, fgetc, fread_bytes _ (by decide) hflags hfile, fread_bytes _ (by decide) hflags hread]
  by_cases hnil : rest.take 1 = []
  · rw [if_pos hnil, if_pos hnil]
    exact ⟨_, _, _, _, rfl, rfl, hfd, hnext⟩
  · rw [if_neg hnil, if_neg hnil]
    dsimp only
    split_ifs
    · exact ⟨_, _, _, _, rfl, rfl, hfd, hnext⟩
    · exact ⟨_, _, _, _, rfl, rfl, hfd, hnext⟩

/-- So is the loop of `fgets`. -/
theorem fgetsLoop_delivers (h : Delivers k fd left) (hfd : stream.fd = fd) (hleft : left rest s)
    (room : ℕ) (m : Mem) (ptr : ℕ) : ∃ end' m' stream' rest' s',
      fgetsLoop fileKernel room rest m ptr (some stream) = ⟨end', m', some stream', rest'⟩ ∧
      fgetsLoop k room s m ptr (some stream) = ⟨end', m', some stream', s'⟩ ∧
      stream'.fd = fd ∧ left rest' s' := by
  induction room generalizing stream rest s m ptr with
  | zero => exact ⟨ptr, m, stream, rest, s, rfl, rfl, hfd, hleft⟩
  | succ room ih =>
    obtain ⟨c, stream', rest', s', hfile, hkernel, hfd', hleft'⟩ := fgetc_delivers h hfd hleft
    rw [fgetsLoop, fgetsLoop, hfile, hkernel]
    dsimp only
    split_ifs
    · exact ⟨_, _, _, _, _, rfl, rfl, hfd', hleft'⟩
    · exact ⟨_, _, _, _, _, rfl, rfl, hfd', hleft'⟩
    · exact ih hfd' hleft' _ _

/-- So is a call of `fgets`. -/
theorem fgets_delivers (h : Delivers k fd left) (hfd : stream.fd = fd) (hleft : left rest s) (m : Mem)
    (dest : ℕ) (size : ℤ) : ∃ ptr m' stream' rest' s',
      fgets fileKernel rest m dest size (some stream) = ⟨ptr, m', some stream', rest'⟩ ∧
      fgets k s m dest size (some stream) = ⟨ptr, m', some stream', s'⟩ ∧
      stream'.fd = fd ∧ left rest' s' := by
  rw [fgets, fgets]
  split_ifs with hargs
  · exact ⟨_, _, _, _, _, rfl, rfl, hfd, hleft⟩
  obtain ⟨end', m', stream', rest', s', hfile, hkernel, hfd', hleft'⟩ :=
    fgetsLoop_delivers h hfd hleft (size - 1).toNat m dest
  rw [hfile, hkernel]
  dsimp only
  split_ifs
  · exact ⟨_, _, _, _, _, rfl, rfl, hfd', hleft'⟩
  · exact ⟨_, _, _, _, _, rfl, rfl, hfd', hleft'⟩

/-- So are calls one after the other. -/
theorem readsPieces_delivers (h : Delivers k fd left) {dest : ℕ} {size : ℤ} (lines : List (List UInt8))
    (hfd : stream.fd = fd) (hleft : left rest s)
    (hreads : ReadsPieces fileKernel dest size lines rest m (some stream)) :
    ReadsPieces k dest size lines s m (some stream) := by
  induction lines generalizing stream rest s m with
  | nil =>
    obtain ⟨ptr, m', stream', rest', s', hfile, hkernel, -, -⟩ :=
      fgets_delivers h hfd hleft m dest size
    rw [ReadsPieces, hfile] at hreads
    rw [ReadsPieces, hkernel]
    exact hreads
  | cons piece more ih =>
    obtain ⟨ptr, m', stream', rest', s', hfile, hkernel, hfd', hleft'⟩ :=
      fgets_delivers h hfd hleft m dest size
    rw [ReadsPieces, hfile] at hreads
    rw [ReadsPieces, hkernel]
    exact ⟨hreads.1, hreads.2.1, hreads.2.2.1, ih hfd' hleft' hreads.2.2.2⟩

/-- A descriptor that cannot be read has no lines. -/
theorem fgets_failed {s' : σ} (hread : k.read s stream.fd 1 = (none, s')) (m : Mem) (dest room : ℕ) :
    (fgets k s m dest (room + 2 : ℕ) (some stream)).ptr = 0 := by
  have hc : ∃ s'', fgetc k s (some stream) = (endOfFile, some { stream with error := true }, s'') := by
    by_cases hflags : stream.flags &&& fileTypeRead = 0
    · rw [fgetc, fread_unreadable k s _ hflags]
      exact ⟨s, rfl⟩
    · have hfread : fread k s (fun _ => 0) 1 1 1 (some stream) =
          ⟨0, some { stream with error := true }, fun _ => 0, s', []⟩ := by
        rw [fread, if_neg (by decide), if_neg hflags, wrap_one, hread]
      rw [fgetc, hfread]
      exact ⟨s', rfl⟩
  obtain ⟨s'', hc⟩ := hc
  by_cases hdest : dest = 0
  · rw [fgets, if_pos (.inl hdest)]
  rw [fgets_eq hdest, fgetsLoop, hc]
  exact congrArg Line.ptr (if_pos rfl)

/-- **Reading all**: the calls of `fgets` read what the kernel delivers, cut into pieces. -/
theorem readsPieces_of_delivers (h : Delivers k fd left) (hs : Readable stream fd)
    (hleft : left rest s) {dest : ℕ} (hdest : dest ≠ 0) (room : ℕ) (m : Mem) :
    ReadsPieces k dest (room + 2 : ℕ) (Library.pieces isNewline room rest) s m (some stream) := by
  have hsupplies : Supplies fileKernel fd id := by
    refine ⟨fun bytes c rest hbytes => ?_, fun bytes hbytes => ?_⟩
    · obtain rfl : bytes = c :: rest := hbytes
      exact ⟨rest, rfl, rfl⟩
    · obtain rfl : bytes = [] := hbytes
      exact ⟨[], rfl, rfl⟩
  exact readsPieces_delivers h _ hs.fd hleft (readsPieces_pieces hsupplies hs hdest m rfl)

end

end PrismaticOS.Libc
