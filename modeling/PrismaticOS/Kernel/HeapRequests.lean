import PrismaticOS.Kernel.HeapSafety

/-!
# What `kmalloc` and `krealloc` answer

One call on any heap whose blocks are disjoint, reached by whatever calls: other
blocks need not be below `kernel_heap_current`, and a block in use may follow a free
one on the list. A size is rounded up and added to an address in 64 bits, and no
result is checked.

## What is proved

* `answered_iff` — when `kmalloc` returns a block that is large enough and inside the
  heap, or `NULL` and leaves the heap alone.
* `reallocated` — when `krealloc` returns a block that is large enough, with the old
  contents in it and everything else as before.
-/

namespace PrismaticOS.Kernel

open PrismaticOS.Library

/-- The blocks of the heap `h` are `L`, and no two share a byte. -/
structure DisjointHeap (h : Heap) (L : List Block) : Prop where
  /-- The list. -/
  list : BlockList h.mem h.heapFreeList L
  /-- No two blocks share a byte. -/
  apart : L.Pairwise Block.Apart
  /-- A block ends at an address. -/
  stop_lt : ∀ b ∈ L, b.stop < 2 ^ 64
  /-- What is carved ends before the end: the test of `kmalloc` sees to it. -/
  current_le : h.kernelHeapCurrent ≤ h.kernelHeapEnd
  /-- The end is an address. -/
  end_lt : h.kernelHeapEnd < 2 ^ 64

variable {h : Heap} {L : List Block} {b c : Block} {m : Mem} {n a : ℕ}

theorem HeapInv.disjointHeap (hi : HeapInv h L) : DisjointHeap h L :=
  ⟨hi.list, hi.apart, fun _ hb => hi.stop_lt hb, hi.current_le, hi.end_lt⟩

namespace DisjointHeap

theorem apart_of_ne (hd : DisjointHeap h L) (hb : b ∈ L) (hc : c ∈ L) (hne : b ≠ c) : b.Apart c :=
  hd.apart.forall hb hc hne

theorem payload_lt (hd : DisjointHeap h L) (hb : b ∈ L) : b.payload < 2 ^ 64 := by
  have hlt := hd.stop_lt b hb
  unfold Block.stop at hlt
  unfold Block.payload
  omega

theorem blockOf_payload (hd : DisjointHeap h L) (hb : b ∈ L) : blockOf b.payload = b.addr := by
  have hlt := hd.payload_lt hb
  unfold Block.payload at hlt
  rw [blockOf, Block.payload, sizeofHeapBlock, wsub_of_le hlt (by omega), Nat.add_sub_cancel]

theorem searchHeap_eq (hd : DisjointHeap h L) : searchHeap h n =
    some (((L.find? fun b => decide (b.Fits (align8 n))).map Block.addr).getD 0) :=
  findBlock_eq hd.list (hd.list.length_lt (hd.list.head_lt hd.stop_lt))

/-- `kmalloc` takes the first free block that is large enough. -/
theorem kmalloc_found (hd : DisjointHeap h L) (hn : n ≠ 0)
    (hfind : L.find? (fun b => decide (b.Fits (align8 n))) = some b) :
    kmalloc h n = some ({ h with mem := takeBlock h.mem b.addr (align8 n) }, b.payload) := by
  have hb : b ∈ L := List.mem_of_find?_eq_some hfind
  have hsearch : searchHeap h n = some b.addr := by
    rw [hd.searchHeap_eq, hfind]
    rfl
  unfold searchHeap at hsearch
  have hlt := hd.payload_lt hb
  unfold Block.payload at hlt
  rw [kmalloc, if_neg hn, hsearch, Option.map_some, if_pos (hd.list.addr_ne_zero hb), sizeofHeapBlock,
    wrap_of_lt hlt, Block.payload]

/-- Without one it carves a block, if the end of the heap allows it. -/
theorem kmalloc_carved (hd : DisjointHeap h L) (hn : n ≠ 0)
    (hfind : L.find? (fun b => decide (b.Fits (align8 n))) = none) :
    kmalloc h n = some (if heapFull h (align8 n) then (h, 0)
      else (carveBlock h (align8 n), wrap 64 (h.kernelHeapCurrent + sizeofHeapBlock))) := by
  have hsearch : searchHeap h n = some 0 := by
    rw [hd.searchHeap_eq, hfind]
    rfl
  unfold searchHeap at hsearch
  rw [kmalloc, if_neg hn, hsearch, Option.map_some, if_neg (not_not.mpr rfl)]

end DisjointHeap


/-! ### What a call writes -/

/-- A split writes inside the block. -/
theorem splitBlock_eqOn (hlt : b.stop < 2 ^ 64) (ha : a + 24 < b.size) :
    Set.EqOn (splitBlock m b.addr a) m (Set.Ico b.addr b.stop)ᶜ := by
  unfold Block.stop at hlt ⊢
  have hnew : wrap 64 (b.addr + sizeofHeapBlock + a) = b.addr + 24 + a :=
    wrap_of_lt (by simp only [sizeofHeapBlock]; omega)
  have hhead : (Set.Ico b.addr (b.addr + 24 + b.size))ᶜ ⊆ (header b.addr)ᶜ :=
    Set.compl_subset_compl.mpr (Set.Ico_subset_Ico le_rfl (by omega))
  have hrest : (Set.Ico b.addr (b.addr + 24 + b.size))ᶜ ⊆ (header (b.addr + 24 + a))ᶜ :=
    Set.compl_subset_compl.mpr (Set.Ico_subset_Ico (by omega) (by omega))
  unfold splitBlock
  simp only [hnew]
  exact (setBlockNext_eqOn.mono hhead).trans ((setBlockSize_eqOn.mono hhead).trans
    ((setBlockNext_eqOn.mono hrest).trans (((setBlockUsed_eqOn false).mono hrest).trans
      (setBlockSize_eqOn.mono hrest))))

/-- The size field of a block that was found, and the bytes outside it. -/
theorem takeBlock_spec (hh : b.Holds m) (hlt : b.stop < 2 ^ 64) (ha : a ≤ b.size) :
    blockSize (takeBlock m b.addr a) b.addr = (if a + 24 < b.size then a else b.size) ∧
      Set.EqOn (takeBlock m b.addr a) m (Set.Ico b.addr b.stop)ᶜ := by
  have hstop : b.addr + 24 + b.size < 2 ^ 64 := hlt
  have hwrap : wrap 64 (a + sizeofHeapBlock) = a + 24 :=
    wrap_of_lt (by simp only [sizeofHeapBlock]; omega)
  have hsize : blockSize (setBlockUsed m b.addr true) b.addr = b.size := by
    rw [blockSize_setBlockUsed, hh.1]
  have hout : Set.EqOn (setBlockUsed m b.addr true) m (Set.Ico b.addr b.stop)ᶜ :=
    (setBlockUsed_eqOn true).mono
      (Set.compl_subset_compl.mpr (Set.Ico_subset_Ico le_rfl (by unfold Block.stop; omega)))
  unfold takeBlock
  simp only [hwrap, hsize]
  by_cases hs : a + 24 < b.size
  · simp only [if_pos hs]
    refine ⟨?_, (splitBlock_eqOn hlt hs).trans hout⟩
    exact (splitBlock_headers (by rw [hsize]; exact hs) (by rw [hsize]; exact hstop)).1
  · simp only [if_neg hs]
    exact ⟨hsize, hout⟩

/-- The size field of a block that was carved, and the bytes outside its header. -/
theorem carveBlock_spec (h : Heap) (ha : a < 2 ^ 64) :
    blockSize (carveBlock h a).mem h.kernelHeapCurrent = a ∧
      Set.EqOn (carveBlock h a).mem h.mem (header h.kernelHeapCurrent)ᶜ := by
  refine ⟨?_, setBlockNext_eqOn.trans ((setBlockUsed_eqOn true).trans setBlockSize_eqOn)⟩
  simp only [carveBlock, blockSize_setBlockNext, blockSize_setBlockUsed, blockSize_setBlockSize ha]

/-- `kfree` writes into the header of the block. -/
theorem kfree_eqOn (h : Heap) (p : ℕ) :
    Set.EqOn (kfree h p).mem h.mem (header (blockOf p))ᶜ := by
  unfold kfree
  by_cases hp : p = 0
  · rw [if_pos hp]
    exact fun _ _ => rfl
  simp only [if_neg hp]
  split
  · exact setBlockNext_eqOn.trans (setBlockSize_eqOn.trans (setBlockUsed_eqOn false))
  · exact setBlockUsed_eqOn false

/-- A request of at least 2^64 - 7 bytes is rounded up to nothing. -/
theorem align8_of_wrap (hlt : n < 2 ^ 64) (hwrap : 2 ^ 64 ≤ n + 7) : align8 n = 0 := by
  have hmod : wrap 64 (n + 7) = n + 7 - 2 ^ 64 := by
    unfold wrap
    omega
  rw [align8, hmod]
  omega

/-- So it is rounded up to less exactly then. -/
theorem le_align8_iff (hlt : n < 2 ^ 64) (h0 : 0 < n) : n ≤ align8 n ↔ n + 7 < 2 ^ 64 := by
  constructor
  · intro hle
    by_contra hwrap
    rw [align8_of_wrap hlt (by omega)] at hle
    omega
  · exact le_align8

theorem align8_lt (n : ℕ) : align8 n < 2 ^ 64 := by
  have hlt := wrap_lt 64 (n + 7)
  unfold align8
  omega

/-! ### `kmalloc` -/

/-- What `kmalloc` returns and leaves: a block whose size field is at least `n` and
that ends below the end of the heap, or `NULL` and the heap as it was. -/
def Answers (h : Heap) (n : ℕ) (h' : Heap) (p : ℕ) : Prop :=
  if p = 0 then h' = h
  else n ≤ blockSize h'.mem (blockOf p) ∧
    blockOf p + sizeofHeapBlock + blockSize h'.mem (blockOf p) ≤ h'.kernelHeapEnd

/-- The size is rounded up without wrapping, and a block that has to be carved ends
at an address; or there is none for it and the test for the end of the heap fails. -/
def Served (h : Heap) (L : List Block) (n : ℕ) : Prop :=
  if ∃ b ∈ L, b.Fits (align8 n) then n + 7 < 2 ^ 64
  else heapFull h (align8 n) ∨
    n + 7 < 2 ^ 64 ∧ h.kernelHeapCurrent + align8 n + sizeofHeapBlock < 2 ^ 64

theorem DisjointHeap.answers_found (hd : DisjointHeap h L) (hb : b ∈ L)
    (hin : b.stop ≤ h.kernelHeapEnd) (hfit : b.Fits (align8 n)) (h0 : 0 < n) (hn : n < 2 ^ 64) :
    Answers h n { h with mem := takeBlock h.mem b.addr (align8 n) } b.payload ↔ n + 7 < 2 ^ 64 := by
  obtain ⟨hsize, -⟩ := takeBlock_spec (hd.list.holds b hb) (hd.stop_lt b hb) hfit.2
  have hstop := hd.stop_lt b hb
  have hlarge := hfit.2
  unfold Block.stop at hin hstop
  rw [Answers, if_neg b.payload_ne_zero, hd.blockOf_payload hb, hsize, sizeofHeapBlock]
  constructor
  · rintro ⟨hle, -⟩
    by_contra hwrap
    rw [align8_of_wrap hn (by omega)] at hle
    split at hle <;> omega
  · intro hlt
    have hle := le_align8 hlt
    simp only
    split <;> omega

theorem DisjointHeap.answers_carved (hd : DisjointHeap h L) (h0 : 0 < n) (hn : n < 2 ^ 64)
    (hfull : ¬heapFull h (align8 n)) :
    Answers h n (carveBlock h (align8 n)) (wrap 64 (h.kernelHeapCurrent + sizeofHeapBlock)) ↔
      n + 7 < 2 ^ 64 ∧ h.kernelHeapCurrent + align8 n + sizeofHeapBlock < 2 ^ 64 := by
  have hcur := hd.current_le
  have hend := hd.end_lt
  have hsize := (carveBlock_spec h (align8_lt n)).1
  rw [sizeofHeapBlock]
  by_cases hp : wrap 64 (h.kernelHeapCurrent + 24) = 0
  · -- the header takes the last bytes of the address space
    have hlast : 2 ^ 64 ≤ h.kernelHeapCurrent + 24 := by
      by_contra hlt
      rw [wrap_of_lt (by omega)] at hp
      omega
    rw [Answers, if_pos hp]
    refine ⟨fun he => ?_, fun hlt => by omega⟩
    have hhead : h.heapFreeList = h.kernelHeapCurrent := congrArg Heap.heapFreeList he.symm
    cases L with
    | nil =>
      have hnull : h.heapFreeList = 0 := hd.list.seg
      omega
    | cons b L =>
      have hb : h.heapFreeList = b.addr := hd.list.seg.1
      have hstop := hd.stop_lt b List.mem_cons_self
      unfold Block.stop at hstop
      omega
  · have hlast : h.kernelHeapCurrent + 24 ≠ 2 ^ 64 := by
      intro he
      rw [he] at hp
      exact hp (Nat.mod_self _)
    have hblock : blockOf (wrap 64 (h.kernelHeapCurrent + 24)) = h.kernelHeapCurrent := by
      unfold blockOf wsub wrap
      simp only [sizeofHeapBlock]
      omega
    rw [Answers, if_neg hp, hblock, hsize, le_align8_iff hn h0]
    refine and_congr_right fun hlt => ⟨fun hle => ?_, fun hlt' => ?_⟩
    · simp only [carveBlock, sizeofHeapBlock] at hle
      omega
    · rw [heapFull, sizeofHeapBlock, wrap_of_lt hlt'] at hfull
      simp only [carveBlock, sizeofHeapBlock]
      omega

/-- **What `kmalloc` answers**: it returns, and its answer is right exactly when the
request can be served. -/
theorem answered_iff (hd : DisjointHeap h L)
    (hin : ∀ b ∈ L, h.kernelHeapStart ≤ b.addr ∧ b.stop ≤ h.kernelHeapEnd) (h0 : 0 < n)
    (hn : n < 2 ^ 64) :
    (∃ h' p, kmalloc h n = some (h', p) ∧ Answers h n h' p) ↔ Served h L n := by
  have hn0 : n ≠ 0 := Nat.ne_of_gt h0
  cases hfind : L.find? fun b => decide (b.Fits (align8 n)) with
  | none =>
    have hnone : ¬∃ b ∈ L, b.Fits (align8 n) := by
      rintro ⟨b, hb, hfit⟩
      exact List.find?_eq_none.mp hfind b hb (decide_eq_true hfit)
    rw [hd.kmalloc_carved hn0 hfind, Served, if_neg hnone]
    by_cases hfull : heapFull h (align8 n)
    · rw [if_pos hfull]
      exact ⟨fun _ => .inl hfull, fun _ => ⟨h, 0, rfl, by rw [Answers, if_pos rfl]⟩⟩
    · rw [if_neg hfull, or_iff_right hfull, ← hd.answers_carved h0 hn hfull]
      simp
  | some b =>
    have hb : b ∈ L := List.mem_of_find?_eq_some hfind
    have hfit : b.Fits (align8 n) := by simpa using List.find?_some hfind
    rw [hd.kmalloc_found hn0 hfind, Served, if_pos ⟨b, hb, hfit⟩,
      ← hd.answers_found hb (hin b hb).2 hfit h0 hn]
    simp

/-- The heap that `mm_init` sets up for an image that ends at 2 MB. -/
theorem heapInit_inv : HeapInv (heapInit (fun _ => 0) 0x200000) [] :=
  ⟨⟨rfl, nofun⟩, List.Pairwise.nil, nofun, by decide, by decide, by decide, by decide⟩

/-- The first request after `mm_init`. -/
theorem answered_first : ∃ h' p, kmalloc (heapInit (fun _ => 0) 0x200000) 100 = some (h', p) ∧
    Answers (heapInit (fun _ => 0) 0x200000) 100 h' p := by
  refine (answered_iff heapInit_inv.disjointHeap nofun (by decide) (by decide)).mpr ?_
  rw [Served, if_neg (by simp)]
  exact .inr ⟨by decide, by decide⟩

/-- A request of 2^64 - 4 bytes gets a block without any. -/
theorem huge_request : ¬ ∀ h L n, DisjointHeap h L →
    (∀ b ∈ L, h.kernelHeapStart ≤ b.addr ∧ b.stop ≤ h.kernelHeapEnd) → 0 < n → n < 2 ^ 64 →
    ∃ h' p, kmalloc h n = some (h', p) ∧ Answers h n h' p := by
  intro h
  obtain ⟨h', p, hcall, hans⟩ :=
    h _ [] (2 ^ 64 - 4) heapInit_inv.disjointHeap nofun (by decide) (by decide)
  have hend : (kmalloc (heapInit (fun _ => 0) 0x200000) (2 ^ 64 - 4)).map
      (fun r => (r.2, blockSize r.1.mem (blockOf r.2))) = some (0x200018, 0) := by decide +kernel
  rw [hcall, Option.map_some, Option.some.injEq, Prod.mk.injEq] at hend
  obtain ⟨hp, hsize⟩ := hend
  simp only at hp hsize
  rw [Answers, hp, if_neg (by decide), ← hp, hsize] at hans
  exact absurd hans.1 (by decide)

/-! ### `krealloc` -/

/-- What `krealloc(b, n)` returns and leaves: a block whose size field is at least `n`
and that has the bytes of `b`, as many as both have, while every other block in use
stays as it is; or `NULL` and the heap as it was. -/
def KeepsContents (h : Heap) (L : List Block) (b : Block) (n : ℕ) (h' : Heap) (q : ℕ) : Prop :=
  if q = 0 then h' = h
  else n ≤ blockSize h'.mem (blockOf q) ∧
    (∀ i < min b.size n, h'.mem (q + i) = h.mem (b.payload + i)) ∧
    ∀ c ∈ L, c.used = true → c ≠ b → Set.EqOn h'.mem h.mem (Set.Ico c.addr c.stop)

/-- The block does not grow, its new size is rounded up without wrapping, or there is
no block to be had. -/
def SizeOk (h : Heap) (L : List Block) (b : Block) (n : ℕ) : Prop :=
  n ≤ b.size ∨ n + 7 < 2 ^ 64 ∨ (¬∃ c ∈ L, c.Fits (align8 n)) ∧ heapFull h (align8 n)

/-- If a block has to be carved, no block in use has bytes where its header and the
copy go. -/
def RoomAbove (h : Heap) (L : List Block) (b : Block) (n : ℕ) : Prop :=
  b.size < n → (¬∃ c ∈ L, c.Fits (align8 n)) → ¬heapFull h (align8 n) →
    h.kernelHeapCurrent + 24 + b.size < 2 ^ 64 ∧ ∀ c ∈ L, c.used = true →
      c.stop ≤ h.kernelHeapCurrent ∨ h.kernelHeapCurrent + 24 + b.size ≤ c.addr

variable {h' : Heap} {q x : ℕ}

/-- A block that does not grow stays. -/
theorem DisjointHeap.krealloc_stays (hd : DisjointHeap h L) (hb : b ∈ L) (h0 : n ≠ 0)
    (hle : n ≤ b.size) : krealloc h b.payload n = some (h, b.payload) := by
  rw [krealloc, if_neg b.payload_ne_zero, if_neg h0, hd.blockOf_payload hb, (hd.list.holds b hb).1,
    if_pos hle]

/-- A block that grows is moved, if there is a block to be had. -/
theorem DisjointHeap.krealloc_moves (hd : DisjointHeap h L) (hb : b ∈ L) (hlt : b.size < n)
    (hcall : kmalloc h n = some (h', q)) (hsame : q ≠ 0 → SameHeader h'.mem h.mem b.addr) :
    krealloc h b.payload n = some (if q = 0 then (h', 0)
      else (kfree { h' with mem := copyBytes h'.mem q b.payload b.size } b.payload, q)) := by
  have hsize := (hd.list.holds b hb).1
  rw [krealloc, if_neg b.payload_ne_zero, if_neg (by omega), hd.blockOf_payload hb, hsize,
    if_neg (by omega), hcall, Option.map_some]
  by_cases hq : q = 0
  · simp only [if_pos hq]
  · simp only [if_neg hq, (hsame hq).size, hsize, if_pos hlt]

/-- The size field of a moved block: neither the copy nor the freed block reaches its
header. -/
theorem DisjointHeap.moved_size (hd : DisjointHeap h L) (h' : Heap) (hb : b ∈ L)
    (hsep : x + 24 ≤ b.addr ∨ b.addr + 24 ≤ x) :
    blockSize (kfree { h' with mem := copyBytes h'.mem (x + 24) b.payload b.size } b.payload).mem x =
      blockSize h'.mem x := by
  have hbelow : header x ⊆ (Set.Ico (x + 24) (x + 24 + b.size))ᶜ := by
    intro y hy hy'
    rw [header, Set.mem_Ico] at hy
    rw [Set.mem_Ico] at hy'
    omega
  have hcopy := (copyBytes_eqOn h'.mem (x + 24) b.payload b.size).mono hbelow
  have hfree := kfree_eqOn { h' with mem := copyBytes h'.mem (x + 24) b.payload b.size } b.payload
  rw [hd.blockOf_payload hb] at hfree
  exact (SameHeader.of_eqOn ((hfree.mono (disjoint_header hsep)).trans hcopy)).size

/-- The bytes of a moved block, and those outside its old and its new one. -/
theorem DisjointHeap.moved_bytes (hd : DisjointHeap h L) (hb : b ∈ L)
    (hsep : b.stop ≤ x ∨ x + 24 + b.size ≤ b.addr) {m'' : Mem}
    (hm : (kfree { h' with mem := copyBytes h'.mem (x + 24) b.payload b.size } b.payload).mem = m'') :
    (∀ i < b.size, m'' (x + 24 + i) = h'.mem (b.payload + i)) ∧
      ∀ y, (y < b.addr ∨ b.stop ≤ y) → (y < x ∨ x + 24 + b.size ≤ y) → m'' y = h'.mem y := by
  have hfree := kfree_eqOn { h' with mem := copyBytes h'.mem (x + 24) b.payload b.size } b.payload
  rw [hm, hd.blockOf_payload hb] at hfree
  unfold Block.stop at hsep ⊢
  constructor
  · intro i hi
    have hout : x + 24 + i ∈ (header b.addr)ᶜ := by
      rw [header, Set.mem_compl_iff, Set.mem_Ico]
      omega
    rw [hfree hout]
    exact (if_pos ⟨by omega, by omega⟩).trans (by rw [Nat.add_sub_cancel_left])
  · intro y hy hy'
    have hout : y ∈ (header b.addr)ᶜ := by
      rw [header, Set.mem_compl_iff, Set.mem_Ico]
      omega
    rw [hfree hout]
    exact if_neg (by omega)

/-- A block is moved into `[x, e)`, where nothing in use has a byte: what is left to
ask is whether its size field is large enough. -/
theorem DisjointHeap.keepsContents_moved {e : ℕ} (hd : DisjointHeap h L) (hb : b ∈ L)
    (hu : b.used = true) (hlt : b.size < n) (hcall : kmalloc h n = some (h', x + 24))
    (hx : x + 24 < 2 ^ 64) (hout : ∀ y, (y < x ∨ e ≤ y) → h'.mem y = h.mem y)
    (hle : x + 24 + b.size ≤ e) (hfar : ∀ c ∈ L, c.used = true → c.stop ≤ x ∨ e ≤ c.addr) :
    (∃ h'' q, krealloc h b.payload n = some (h'', q) ∧ KeepsContents h L b n h'' q) ↔
      n ≤ blockSize h'.mem x := by
  have hbx := hfar b hb hu
  have hhead : b.addr + 24 ≤ b.stop := by
    unfold Block.stop
    omega
  have hsame : SameHeader h'.mem h.mem b.addr := by
    refine .of_eqOn fun y hy => hout y ?_
    rw [header, Set.mem_Ico] at hy
    omega
  have hblock : blockOf (x + 24) = x := by
    rw [blockOf, sizeofHeapBlock, wsub_of_le hx (by omega), Nat.add_sub_cancel]
  have hq : x + 24 ≠ 0 := by omega
  obtain ⟨m'', hm⟩ : ∃ m'', (kfree { h' with mem := copyBytes h'.mem (x + 24) b.payload b.size }
      b.payload).mem = m'' := ⟨_, rfl⟩
  have hsize := hd.moved_size h' (x := x) hb (by omega)
  obtain ⟨hbytes, hframe⟩ := hd.moved_bytes hb (by omega) hm
  rw [hm] at hsize
  rw [hd.krealloc_moves hb hlt hcall fun _ => hsame, if_neg hq]
  constructor
  · rintro ⟨h'', q, hres, hkeeps⟩
    obtain ⟨rfl, rfl⟩ := Prod.mk.inj (Option.some.inj hres)
    rw [KeepsContents, if_neg hq, hblock, hm, hsize] at hkeeps
    exact hkeeps.1
  · intro hlarge
    refine ⟨_, _, rfl, ?_⟩
    rw [KeepsContents, if_neg hq, hblock, hm, hsize]
    refine ⟨hlarge, fun i hi => ?_, fun c hc hcu hcb y hy => ?_⟩
    · -- the old bytes are still there when they are copied
      rw [hbytes i (by omega)]
      refine hout _ ?_
      unfold Block.stop at hbx
      unfold Block.payload
      omega
    · have hcx := hfar c hc hcu
      have ha := hd.apart_of_ne hc hb hcb
      unfold Block.Apart at ha
      rw [Set.mem_Ico] at hy
      rw [hframe y (by omega) (by omega)]
      exact hout y (by omega)

/-- A free block is large enough for what the block is moved for. -/
theorem DisjointHeap.reallocated_found {d : Block} (hd : DisjointHeap h L) (hb : b ∈ L)
    (hu : b.used = true) (hlt : b.size < n) (hn : n < 2 ^ 64)
    (hfind : L.find? (fun c => decide (c.Fits (align8 n))) = some d) :
    (∃ h'' q, krealloc h b.payload n = some (h'', q) ∧ KeepsContents h L b n h'' q) ↔
      n + 7 < 2 ^ 64 := by
  have hdL : d ∈ L := List.mem_of_find?_eq_some hfind
  have hfit : d.Fits (align8 n) := by simpa using List.find?_some hfind
  have hcall := hd.kmalloc_found (by omega) hfind
  have hstop := hd.stop_lt d hdL
  obtain ⟨hsize, hout⟩ := takeBlock_spec (hd.list.holds d hdL) hstop hfit.2
  obtain ⟨m', hm'⟩ : ∃ m', takeBlock h.mem d.addr (align8 n) = m' := ⟨_, rfl⟩
  rw [hm'] at hcall hsize hout
  have hfar : ∀ c ∈ L, c.used = true → c.stop ≤ d.addr ∨ d.stop ≤ c.addr := by
    intro c hc hcu
    refine hd.apart_of_ne hc hdL ?_
    rintro rfl
    rw [hfit.1] at hcu
    cases hcu
  have hout' : ∀ y, (y < d.addr ∨ d.stop ≤ y) → m' y = h.mem y := by
    intro y hy
    refine hout ?_
    rw [Set.mem_compl_iff, Set.mem_Ico]
    omega
  have hlarge := hfit.2
  unfold Block.stop at hstop
  by_cases hwrap : n + 7 < 2 ^ 64
  · have hle := le_align8 hwrap
    have hinside : d.addr + 24 + b.size ≤ d.stop := by
      unfold Block.stop
      omega
    have hlast : d.addr + 24 < 2 ^ 64 := by omega
    rw [hd.keepsContents_moved (x := d.addr) hb hu hlt hcall hlast hout' hinside hfar, hsize]
    refine iff_of_true ?_ hwrap
    split <;> omega
  · -- the request is rounded up to nothing, so any free block is taken
    refine iff_of_false ?_ hwrap
    rintro ⟨h'', q, hres, hkeeps⟩
    have hbd := hfar b hb hu
    unfold Block.stop at hbd
    have hsame : SameHeader m' h.mem b.addr := by
      refine .of_eqOn fun y hy => hout' y ?_
      rw [header, Set.mem_Ico] at hy
      unfold Block.stop
      omega
    rw [hd.krealloc_moves hb hlt hcall fun _ => hsame, if_neg d.payload_ne_zero, Option.some.injEq,
      Prod.mk.injEq] at hres
    obtain ⟨rfl, rfl⟩ := hres
    rw [KeepsContents, if_neg d.payload_ne_zero, hd.blockOf_payload hdL, Block.payload,
      hd.moved_size _ hb (by omega)] at hkeeps
    have hlarge' := hkeeps.1
    simp only [hsize, align8_of_wrap hn (Nat.le_of_not_lt hwrap)] at hlarge'
    split at hlarge' <;> omega

/-- A block is carved for it. -/
theorem DisjointHeap.reallocated_carved (hd : DisjointHeap h L) (hb : b ∈ L)
    (hu : b.used = true) (hlt : b.size < n) (hn : n < 2 ^ 64)
    (hfind : L.find? (fun c => decide (c.Fits (align8 n))) = none) (hfull : ¬heapFull h (align8 n))
    (hroom : h.kernelHeapCurrent + 24 + b.size < 2 ^ 64 ∧ ∀ c ∈ L, c.used = true →
      c.stop ≤ h.kernelHeapCurrent ∨ h.kernelHeapCurrent + 24 + b.size ≤ c.addr) :
    (∃ h'' q, krealloc h b.payload n = some (h'', q) ∧ KeepsContents h L b n h'' q) ↔
      n + 7 < 2 ^ 64 := by
  obtain ⟨hlast, hfar⟩ := hroom
  have hcall := hd.kmalloc_carved (n := n) (by omega) hfind
  rw [if_neg hfull, sizeofHeapBlock, wrap_of_lt (by omega)] at hcall
  obtain ⟨hsize, hout⟩ := carveBlock_spec h (align8_lt n)
  rw [hd.keepsContents_moved hb hu hlt hcall (by omega) (fun y hy => hout ?_) le_rfl hfar, hsize,
    le_align8_iff hn (by omega)]
  rw [header, Set.mem_compl_iff, Set.mem_Ico]
  omega

/-- **What `krealloc` does**: it returns, and where the new size is all right and the
room for a carved block is clear, the contents are kept. Where the room is clear the
condition on the size is also necessary. -/
theorem reallocated (hd : DisjointHeap h L) (hb : b ∈ L) (hu : b.used = true) (h0 : 0 < n)
    (hn : n < 2 ^ 64) :
    (SizeOk h L b n ∧ RoomAbove h L b n →
      ∃ h' q, krealloc h b.payload n = some (h', q) ∧ KeepsContents h L b n h' q) ∧
    (RoomAbove h L b n →
      (∃ h' q, krealloc h b.payload n = some (h', q) ∧ KeepsContents h L b n h' q) →
      SizeOk h L b n) := by
  suffices hiff : RoomAbove h L b n → ((∃ h' q, krealloc h b.payload n = some (h', q) ∧
      KeepsContents h L b n h' q) ↔ SizeOk h L b n) from
    ⟨fun hok => (hiff hok.2).mpr hok.1, fun hroom => (hiff hroom).mp⟩
  intro hroom
  by_cases hle : n ≤ b.size
  · rw [hd.krealloc_stays hb (Nat.ne_of_gt h0) hle]
    refine iff_of_true ⟨h, _, rfl, ?_⟩ (.inl hle)
    rw [KeepsContents, if_neg b.payload_ne_zero, hd.blockOf_payload hb, (hd.list.holds b hb).1]
    exact ⟨hle, fun _ _ => rfl, fun _ _ _ _ _ _ => rfl⟩
  have hlt : b.size < n := Nat.lt_of_not_le hle
  rw [SizeOk, or_iff_right hle]
  cases hfind : L.find? fun c => decide (c.Fits (align8 n)) with
  | some d =>
    have hfit : d.Fits (align8 n) := by simpa using List.find?_some hfind
    rw [hd.reallocated_found hb hu hlt hn hfind, or_iff_left]
    exact fun hnone => hnone.1 ⟨d, List.mem_of_find?_eq_some hfind, hfit⟩
  | none =>
    have hnone : ¬∃ c ∈ L, c.Fits (align8 n) := by
      rintro ⟨c, hc, hfit⟩
      exact List.find?_eq_none.mp hfind c hc (decide_eq_true hfit)
    by_cases hfull : heapFull h (align8 n)
    · have hcall := hd.kmalloc_carved (n := n) (by omega) hfind
      rw [if_pos hfull] at hcall
      rw [hd.krealloc_moves hb hlt hcall (absurd rfl), if_pos rfl]
      exact iff_of_true ⟨h, 0, rfl, by rw [KeepsContents, if_pos rfl]⟩ (.inr ⟨hnone, hfull⟩)
    · rw [hd.reallocated_carved hb hu hlt hn hfind hfull (hroom hlt hnone hfull), or_iff_left]
      exact fun h => hfull h.2

/-- The heap after the first block of 16 bytes. -/
theorem heapInit_carve : HeapInv (carveBlock (heapInit (fun _ => 0) 0x200000) 16)
    [⟨0x200000, 16, true⟩] :=
  heapInit_inv.carve (by decide)

/-- The block is moved to a new one of 40 bytes. -/
theorem reallocated_first : ∃ h' q,
    krealloc (carveBlock (heapInit (fun _ => 0) 0x200000) 16) 0x200018 40 = some (h', q) ∧
      KeepsContents (carveBlock (heapInit (fun _ => 0) 0x200000) 16) [⟨0x200000, 16, true⟩]
        ⟨0x200000, 16, true⟩ 40 h' q := by
  refine (reallocated heapInit_carve.disjointHeap (List.mem_singleton_self _) rfl (by decide)
    (by decide)).1 ⟨.inr (.inl (by decide)), fun _ _ _ => ⟨by decide, fun c hc _ => .inl ?_⟩⟩
  rw [List.mem_singleton.mp hc]
  decide

/-- A block of 16 bytes grows to 2^64 - 4 bytes: it is moved to one of no bytes. -/
theorem huge_realloc : ¬ ∀ h L b n, DisjointHeap h L → b ∈ L → b.used = true → 0 < n → n < 2 ^ 64 →
    ∃ h' q, krealloc h b.payload n = some (h', q) ∧ KeepsContents h L b n h' q := by
  intro h
  obtain ⟨h', q, hcall, hkeeps⟩ := h _ _ _ (2 ^ 64 - 4) heapInit_carve.disjointHeap
    (List.mem_singleton_self _) rfl (by decide) (by decide)
  have hend : (krealloc (carveBlock (heapInit (fun _ => 0) 0x200000) 16) 0x200018 (2 ^ 64 - 4)).map
      (fun r => (r.2, blockSize r.1.mem (blockOf r.2))) = some (0x200040, 0) := by decide +kernel
  rw [show krealloc (carveBlock (heapInit (fun _ => 0) 0x200000) 16) 0x200018 (2 ^ 64 - 4) =
    some (h', q) from hcall, Option.map_some, Option.some.injEq, Prod.mk.injEq] at hend
  obtain ⟨hq, hsize⟩ := hend
  simp only at hq hsize
  rw [KeepsContents, hq, if_neg (by decide), ← hq, hsize] at hkeeps
  exact absurd hkeeps.1 (by decide)

end PrismaticOS.Kernel
