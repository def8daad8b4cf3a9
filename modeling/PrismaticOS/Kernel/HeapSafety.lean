import Mathlib.Order.CompletePartialOrder
import PrismaticOS.Kernel.HeapInvariant

/-!
# Safety of the kernel heap

What is true of runs of `kmalloc`, `kfree` and `krealloc` from the heap `mm_init`
sets up.

`kfree` glues a freed block to the next one on the list when that one is free. The
next block on the list is the next one in memory only when the two come from a
split; blocks carved one after another are on the list in the opposite order, and
gluing them lays the freed block over whatever is above it. And the sizes are
computed in words: a huge request passes the test for the end of the heap, or is
rounded up to nothing.

## What is proved

* `kmalloc_spec`, `kfree_spec`, `krealloc_spec` — a call that avoids this keeps the
  invariant, and what it does to the blocks in use.
* `live_separated` — in a run of such calls the blocks of the live pointers never
  overlap one another or a header, and lie in the part of the heap carved so far.
* `free_list_ends` — in such a run the list never becomes a cycle, so the search of
  the next `kmalloc` ends.
* `live_overlap`, `search_never_ends` — runs of a few calls where both fail.
-/

namespace PrismaticOS.Kernel

open PrismaticOS.Library

/-! ### What the calls do -/

/-- The search from the head of the free list. -/
def searchHeap (h : Heap) (size : ℕ) : Option ℕ :=
  findBlock h.mem (align8 size) addresses h.heapFreeList

/-- If `kmalloc` has to carve a block, the test for the end of the heap does not
wrap, or it fails even so. -/
def KmallocOk (h : Heap) (size : ℕ) : Prop :=
  searchHeap h size = some 0 →
    h.kernelHeapCurrent + align8 size + sizeofHeapBlock < 2 ^ 64 ∨ heapFull h (align8 size)

instance (h : Heap) (size : ℕ) : Decidable (KmallocOk h size) :=
  inferInstanceAs (Decidable (_ → _))

/-- If the next block on the list is free, it is the next block in memory. -/
def KfreeOk (m : Mem) (ptr : ℕ) : Prop :=
  blockNext m (blockOf ptr) ≠ 0 → blockUsed m (blockNext m (blockOf ptr)) = false →
    blockNext m (blockOf ptr) = ptr + blockSize m (blockOf ptr)

instance (m : Mem) (ptr : ℕ) : Decidable (KfreeOk m ptr) := inferInstanceAs (Decidable (_ → _ → _))

/-- `kmalloc` returns `NULL`. -/
def KmallocFails (h : Heap) (size : ℕ) : Prop :=
  searchHeap h size = some 0 ∧ heapFull h (align8 size)

instance (h : Heap) (size : ℕ) : Decidable (KmallocFails h size) :=
  inferInstanceAs (Decidable (_ ∧ _))

/-- What a call of `kmalloc` that returns the block `b` leaves. -/
structure Took (h : Heap) (L : List Block) (size : ℕ) (h' : Heap) (L' : List Block) (b : Block) :
    Prop where
  /-- The heap is well formed. -/
  inv : HeapInv h' L'
  /-- The block is one of its blocks. -/
  mem : b ∈ L'
  /-- The block is in use. -/
  used : b.used = true
  /-- The block is large enough. -/
  large : align8 size ≤ b.size
  /-- Blocks in use stay. -/
  kept : ∀ c ∈ L, c.used = true → c ∈ L'
  /-- The block was not in use. -/
  fresh : ∀ c ∈ L, c.used = true → c.addr ≠ b.addr
  /-- Other headers stay. -/
  frame : ∀ c ∈ L, c.addr ≠ b.addr → SameHeader h'.mem h.mem c.addr
  /-- The block is the one the search found, or a new one. -/
  found : searchHeap h size = some 0 ∨ searchHeap h size = some b.addr

section

variable {h : Heap} {L L₁ L₂ : List Block} {b : Block} {size : ℕ}

theorem HeapInv.searchHeap_eq (hi : HeapInv h L) :
    searchHeap h size =
      some (((L.find? fun b => decide (b.Fits (align8 size))).map Block.addr).getD 0) :=
  findBlock_eq hi.list (hi.list.length_lt (hi.list.head_lt fun _ hb => hi.stop_lt hb))

theorem HeapInv.payload_eq (hi : HeapInv h L) (hb : b ∈ L) :
    wrap 64 (b.addr + sizeofHeapBlock) = b.payload ∧ blockOf b.payload = b.addr := by
  have hlt := hi.stop_lt hb
  unfold Block.stop at hlt
  refine ⟨wrap_of_lt (by simp only [sizeofHeapBlock]; omega), ?_⟩
  unfold blockOf Block.payload
  rw [wsub_of_le (by omega) (by simp only [sizeofHeapBlock]; omega)]
  simp only [sizeofHeapBlock]
  omega

/-- Taking the block that was found. -/
theorem HeapInv.take (hi : HeapInv h (L₁ ++ b :: L₂)) (hfit : b.Fits (align8 size))
    (hfound : searchHeap h size = some b.addr) :
    ∃ L' b', b'.addr = b.addr ∧
      Took h (L₁ ++ b :: L₂) size { h with mem := takeBlock h.mem b.addr (align8 size) } L' b' := by
  have hmem : b ∈ L₁ ++ b :: L₂ := by simp
  obtain ⟨hfree, hlarge⟩ := hfit
  have hne : ∀ c ∈ L₁ ++ b :: L₂, c.used = true → c.addr ≠ b.addr := by
    intro c hc hu he
    rw [hi.list.eq_of_addr hc hmem he, hfree] at hu
    cases hu
  have hother : ∀ c ∈ L₁ ++ b :: L₂, c.addr ≠ b.addr → b.Apart c ∧ (c ∈ L₁ ∨ c ∈ L₂) := by
    intro c hc hca
    refine ⟨(hi.eq_or_apart hmem hc).resolve_left fun he => hca (by rw [he]), ?_⟩
    simp only [List.mem_append, List.mem_cons] at hc
    rcases hc with hc | rfl | hc
    · exact .inl hc
    · exact absurd rfl hca
    · exact .inr hc
  have hset := hi.setUsed true
  have hsize := (hset.list.holds { b with used := true } (by simp)).1
  have hstop := hi.stop_lt hmem
  unfold Block.stop at hstop
  simp only at hsize
  have hwrap : wrap 64 (align8 size + sizeofHeapBlock) = align8 size + 24 :=
    wrap_of_lt (by simp only [sizeofHeapBlock]; omega)
  have hframe₁ : ∀ c ∈ L₁ ++ b :: L₂, c.addr ≠ b.addr →
      SameHeader (setBlockUsed h.mem b.addr true) h.mem c.addr :=
    fun c hc hca => sameHeader_setBlockUsed true (hother c hc hca).1.header
  unfold takeBlock
  simp only [hwrap, hsize]
  by_cases hs : align8 size + 24 < b.size
  · -- the rest becomes a block of its own
    simp only [if_pos hs]
    refine ⟨_, ⟨b.addr, align8 size, true⟩, rfl, hset.split hs, by simp, rfl, le_rfl, ?_, hne, ?_,
      .inr hfound⟩
    · intro c hc hu
      rw [List.mem_append, List.mem_cons, List.mem_cons]
      exact (hother c hc (hne c hc hu)).2.imp id fun hc => .inr (.inr hc)
    · intro c hc hca
      have ha := (hother c hc hca).1
      unfold Block.Apart Block.stop at ha
      exact (splitBlock_frame (by omega) (by omega) (by omega)).trans (hframe₁ c hc hca)
  · simp only [if_neg hs]
    refine ⟨_, { b with used := true }, rfl, hset, by simp, rfl, hlarge, ?_, hne, hframe₁,
      .inr hfound⟩
    intro c hc hu
    rw [List.mem_append, List.mem_cons]
    exact (hother c hc (hne c hc hu)).2.imp id .inr

/-- **`kmalloc`** returns `NULL` and changes nothing, or returns a block. -/
theorem kmalloc_spec (hi : HeapInv h L) (hok : KmallocOk h size) :
    ∃ h' p, kmalloc h size = some (h', p) ∧
      ((p = 0 ∧ h' = h) ∨ ∃ L' b, p = b.payload ∧ Took h L size h' L' b) := by
  unfold kmalloc
  by_cases h0 : size = 0
  · exact ⟨h, 0, if_pos h0, .inl ⟨rfl, rfl⟩⟩
  have hsearch : searchHeap h size = some _ := hi.searchHeap_eq
  rw [if_neg h0, show findBlock h.mem (align8 size) addresses h.heapFreeList = searchHeap h size from rfl]
  cases hfind : L.find? fun b => decide (b.Fits (align8 size)) with
  | none =>
    have hnone : searchHeap h size = some 0 := by rw [hsearch, hfind]; rfl
    simp only [hnone, Option.map_some, ne_eq, not_true_eq_false, if_false]
    by_cases hfull : heapFull h (align8 size)
    · exact ⟨h, 0, by rw [if_pos hfull], .inl ⟨rfl, rfl⟩⟩
    · have hlt := (hok hnone).resolve_right hfull
      have hroom : h.kernelHeapCurrent + align8 size + 24 ≤ h.kernelHeapEnd := by
        unfold heapFull at hfull
        rw [wrap_of_lt hlt] at hfull
        exact Nat.le_of_not_lt hfull
      have hc := hi.carve hroom
      refine ⟨_, _, by rw [if_neg hfull], .inr ⟨_, _, (hc.payload_eq List.mem_cons_self).1, hc,
        List.mem_cons_self, rfl, le_rfl, fun c hc _ => List.mem_cons_of_mem _ hc, ?_, ?_, .inl hnone⟩⟩
      · intro c hc _ he
        have := (hi.within c hc).2
        unfold Block.stop at this
        simp only at he
        omega
      · exact fun c hc _ => hi.carve_sameHeader hc _
  | some b =>
    obtain ⟨hfit, L₁, L₂, rfl, -⟩ := List.find?_eq_some_iff_append.mp hfind
    have hb : b ∈ L₁ ++ b :: L₂ := by simp
    have hfound : searchHeap h size = some b.addr := by rw [hsearch, hfind]; rfl
    obtain ⟨L', b', haddr, htook⟩ := hi.take (of_decide_eq_true hfit) hfound
    have hne := hi.list.addr_ne_zero hb
    simp only [hfound, Option.map_some, ne_eq, hne, not_false_eq_true, if_true]
    refine ⟨_, _, rfl, .inr ⟨L', b', ?_, htook⟩⟩
    rw [(hi.payload_eq hb).1, Block.payload, Block.payload, haddr]

theorem Block.payload_ne_zero (b : Block) : b.payload ≠ 0 := by simp [Block.payload]

/-- **`kfree`** of a block keeps every other block that is in use. -/
theorem kfree_spec (hi : HeapInv h L) (hb : b ∈ L) (hok : KfreeOk h.mem b.payload) :
    ∃ L', HeapInv (kfree h b.payload) L' ∧ ∀ c ∈ L, c.used = true → c ≠ b → c ∈ L' := by
  obtain ⟨L₁, L₂, rfl⟩ := List.append_of_mem hb
  have hpay := (hi.payload_eq hb).2
  have hset := hi.setUsed false
  have hnext := hset.list.next_eq
  have hothers : ∀ c ∈ L₁ ++ b :: L₂, c ≠ b → c ∈ L₁ ∨ c ∈ L₂ := by
    intro c hc hcb
    rw [List.mem_append, List.mem_cons] at hc
    exact hc.imp id fun hc => hc.resolve_left hcb
  have hp0 := b.payload_ne_zero
  have hsize := (hset.list.holds { b with used := false } (by simp)).1
  simp only at hnext hsize
  unfold kfree
  simp only [if_neg hp0, hpay]
  by_cases hmerge : blockNext (setBlockUsed h.mem b.addr false) b.addr ≠ 0 ∧
      blockUsed (setBlockUsed h.mem b.addr false)
        (blockNext (setBlockUsed h.mem b.addr false) b.addr) = false
  · rw [if_pos hmerge]
    obtain ⟨hn0, hnu⟩ := hmerge
    cases L₂ with
    | nil => exact absurd hnext hn0
    | cons d L₂ =>
      rw [List.map_cons, List.headD_cons] at hnext
      have hused : d.used = false := by
        rw [← (hset.list.holds d (by simp)).2, ← hnext]
        exact hnu
      have hadj : d.addr = b.stop := by
        have hnext₀ : blockNext h.mem b.addr = d.addr := hi.list.next_eq
        have hd := hi.list.holds d (by simp)
        have hd0 := hi.list.addr_ne_zero (b := d) (by simp)
        have h := hok
        rw [KfreeOk, hpay, hnext₀, hd.2, (hi.list.holds b (by simp)).1] at h
        exact h hd0 hused
      refine ⟨_, hset.merge hadj, fun c hc hu hcb => ?_⟩
      rw [List.mem_append, List.mem_cons]
      refine (hothers c hc hcb).imp id fun hc => .inr ?_
      rcases List.mem_cons.mp hc with rfl | hc
      · rw [hused] at hu
        cases hu
      · exact hc
  · rw [if_neg hmerge]
    refine ⟨_, hset, fun c hc _ hcb => ?_⟩
    rw [List.mem_append, List.mem_cons]
    exact (hothers c hc hcb).imp id .inr

/-- A copy into the bytes of a block leaves the headers alone. -/
theorem HeapInv.sameHeader_copy {e c : Block} {src n : ℕ} (hi : HeapInv h L) (he : e ∈ L)
    (hc : c ∈ L) (hn : n ≤ e.size) :
    SameHeader (copyBytes h.mem e.payload src n) h.mem c.addr := by
  have hsub : header c.addr ⊆ (Set.Ico e.payload (e.payload + n))ᶜ := by
    intro x hx hx'
    simp only [header, Set.mem_Ico] at hx hx'
    unfold Block.payload at hx'
    rcases hi.eq_or_apart he hc with rfl | ha
    · omega
    · unfold Block.Apart Block.stop at ha
      omega
  exact .of_eqOn ((copyBytes_eqOn _ _ _ _).mono hsub)

/-- Whether a block may be freed is in the headers. -/
theorem KfreeOk.congr {m' : Mem} (hi : HeapInv h L) (hb : b ∈ L)
    (hsame : ∀ c ∈ L, SameHeader m' h.mem c.addr) (hok : KfreeOk h.mem b.payload) :
    KfreeOk m' b.payload := by
  intro hn hu
  have hpay := (hi.payload_eq hb).2
  rw [hpay] at hn hu ⊢
  obtain ⟨L₁, L₂, rfl⟩ := List.append_of_mem hb
  have hsb := hsame b hb
  rw [hsb.next] at hn hu ⊢
  rw [hsb.size]
  have hnext := hi.list.next_eq
  cases L₂ with
  | nil => exact absurd hnext hn
  | cons d L₂ =>
    rw [List.map_cons, List.headD_cons] at hnext
    have hok' := hok
    rw [KfreeOk, hpay, hnext] at hok'
    rw [hnext, (hsame d (by simp)).used] at hu
    rw [hnext] at hn ⊢
    exact hok' hn hu

/-- After `kmalloc`, a block that could be freed still can, and a block before the
one that was taken always can. -/
theorem Took.kfreeOk {h' : Heap} {L' : List Block} {e : Block} (hi : HeapInv h L) (hb : b ∈ L)
    (hu : b.used = true) (ht : Took h L size h' L' e)
    (hok : KfreeOk h.mem b.payload ∨ searchHeap h size = some (blockNext h.mem b.addr)) :
    KfreeOk h'.mem b.payload := by
  intro hn hf
  have hpay := (hi.payload_eq hb).2
  have hsb := ht.frame b hb (ht.fresh b hb hu)
  rw [hpay] at hn hf ⊢
  rw [hsb.next] at hn hf ⊢
  rw [hsb.size]
  obtain ⟨L₁, L₂, rfl⟩ := List.append_of_mem hb
  have hnext := hi.list.next_eq
  cases L₂ with
  | nil => exact absurd hnext hn
  | cons d L₂ =>
    rw [List.map_cons, List.headD_cons] at hnext
    have hd0 := hi.list.addr_ne_zero (b := d) (by simp)
    have hde : d.addr ≠ e.addr := by
      intro he
      rw [hnext, he, (ht.inv.list.holds e ht.mem).2, ht.used] at hf
      cases hf
    rcases hok with hok | hfound
    · have hsd := ht.frame d (by simp) hde
      rw [KfreeOk, hpay, hnext] at hok
      rw [hnext, hsd.used] at hf
      rw [hnext]
      exact hok hd0 hf
    · rw [hnext] at hfound
      rcases ht.found with h | h <;> rw [hfound] at h
      · exact absurd (Option.some.inj h) hd0
      · exact absurd (Option.some.inj h) hde

/-- A request that is rounded up without wrapping gets what it asks for. -/
theorem le_align8 (hlt : size + 7 < 2 ^ 64) : size ≤ align8 size := by
  unfold align8
  rw [wrap_of_lt hlt]
  omega

/-- A call of `krealloc` that moves the block asks for a size that is not rounded up
to nothing, and neither of the calls it makes goes wrong. -/
def KreallocOk (h : Heap) (ptr newSize : ℕ) : Prop :=
  if newSize = 0 then KfreeOk h.mem ptr
  else
    blockSize h.mem (blockOf ptr) < newSize →
      KmallocOk h newSize ∧
        (KmallocFails h newSize ∨
          newSize + 7 < 2 ^ 64 ∧
            (KfreeOk h.mem ptr ∨ searchHeap h newSize = some (blockNext h.mem (blockOf ptr))))

instance (h : Heap) (ptr newSize : ℕ) : Decidable (KreallocOk h ptr newSize) :=
  inferInstanceAs (Decidable (if newSize = 0 then KfreeOk h.mem ptr else _ → _))

/-- **`krealloc`** to a size that is not 0 changes nothing, or moves the block and
keeps every other block that is in use. -/
theorem krealloc_spec {newSize : ℕ} (hi : HeapInv h L) (hb : b ∈ L) (hu : b.used = true)
    (hn : newSize ≠ 0) (hok : KreallocOk h b.payload newSize) :
    ∃ h' p, krealloc h b.payload newSize = some (h', p) ∧
      (((p = 0 ∨ p = b.payload) ∧ h' = h) ∨
        ∃ L' e, p = e.payload ∧ HeapInv h' L' ∧ e ∈ L' ∧ e.used = true ∧
          (∀ c ∈ L, c.used = true → c ≠ b → c ∈ L') ∧ ∀ c ∈ L, c.used = true → c.addr ≠ e.addr) := by
  have hp0 := b.payload_ne_zero
  have hpay := (hi.payload_eq hb).2
  have hsize := (hi.list.holds b hb).1
  unfold krealloc
  simp only [if_neg hp0, if_neg hn, hpay]
  rw [KreallocOk, if_neg hn, hpay] at hok
  by_cases hle : newSize ≤ blockSize h.mem b.addr
  · exact ⟨h, b.payload, if_pos hle, .inl ⟨.inr rfl, rfl⟩⟩
  rw [if_neg hle]
  obtain ⟨hkm, hrest⟩ := hok (Nat.lt_of_not_le hle)
  obtain ⟨h', p, hcall, hres⟩ := kmalloc_spec hi hkm
  rw [hcall, Option.map_some]
  rcases hres with ⟨rfl, rfl⟩ | ⟨L', e, rfl, ht⟩
  · exact ⟨h', 0, rfl, .inl ⟨.inl rfl, rfl⟩⟩
  have he0 := e.payload_ne_zero
  have hbL' := ht.kept b hb hu
  -- the call did not fail, so the rest of the condition holds
  obtain ⟨hlt, hfree⟩ : newSize + 7 < 2 ^ 64 ∧
      (KfreeOk h.mem b.payload ∨ searchHeap h newSize = some (blockNext h.mem b.addr)) := by
    refine hrest.resolve_left fun hfail => ?_
    have hnull : kmalloc h newSize = some (h, 0) := by
      unfold kmalloc
      rw [if_neg hn, show findBlock h.mem (align8 newSize) addresses h.heapFreeList =
        searchHeap h newSize from rfl, hfail.1]
      simp [hfail.2]
    rw [hnull] at hcall
    exact he0 (Prod.ext_iff.mp (Option.some.inj hcall)).2.symm
  have hbsize' : blockSize h'.mem b.addr = b.size := (ht.inv.list.holds b hbL').1
  have hsmall : b.size < newSize := by omega
  have hcopy : b.size ≤ e.size := by
    have h₁ := le_align8 hlt
    have h₂ := ht.large
    omega
  simp only [if_neg he0, hbsize', if_pos hsmall]
  have hsame : ∀ c ∈ L', SameHeader (copyBytes h'.mem e.payload b.payload b.size) h'.mem c.addr :=
    fun c hc => ht.inv.sameHeader_copy ht.mem hc hcopy
  have hinv := ht.inv.congr_mem hsame
  obtain ⟨L'', hi'', hkept⟩ :=
    kfree_spec hinv hbL' ((ht.kfreeOk hi hb hu hfree).congr ht.inv hbL' hsame)
  refine ⟨_, _, rfl, .inr ⟨L'', e, rfl, hi'', hkept e ht.mem ht.used ?_, ht.used, ?_, ht.fresh⟩⟩
  · rintro rfl
    exact ht.fresh e hb hu rfl
  · exact fun c hc hcu hcb => hkept c (ht.kept c hc hcu) hcu hcb

end

/-! ### Runs -/

/-- The heap is well formed, and every live pointer is that of a block in use. -/
def LiveInv (r : HeapRun) : Prop :=
  ∃ L, HeapInv r.heap L ∧ (∀ p ∈ r.live, ∃ b ∈ L, b.used = true ∧ p = b.payload) ∧ r.live.Nodup

/-- A call that meets the condition of its function. -/
def HeapCallOk (r : HeapRun) : HeapCall → Prop
  | .kmalloc size => KmallocOk r.heap size
  | .kfree ptr => KfreeOk r.heap.mem ptr
  | .krealloc ptr newSize => KreallocOk r.heap ptr newSize

instance : ∀ r a, Decidable (HeapCallOk r a)
  | r, .kmalloc size => inferInstanceAs (Decidable (KmallocOk r.heap size))
  | r, .kfree ptr => inferInstanceAs (Decidable (KfreeOk r.heap.mem ptr))
  | r, .krealloc ptr newSize => inferInstanceAs (Decidable (KreallocOk r.heap ptr newSize))

theorem Block.payload_inj {b c : Block} (h : b.payload = c.payload) : b.addr = c.addr := by
  unfold Block.payload at h
  omega

theorem LiveInv.intro {h : Heap} {L : List Block} {live : List ℕ} (hi : HeapInv h L)
    (hlive : ∀ p ∈ live, ∃ b ∈ L, b.used = true ∧ p = b.payload) (hnd : live.Nodup) :
    LiveInv ⟨h, live⟩ :=
  ⟨L, hi, hlive, hnd⟩

/-- Freeing a live pointer keeps the invariant. -/
theorem LiveInv.kfree {r : HeapRun} {ptr : ℕ} (hi : LiveInv r) (hp : ptr ∈ r.live)
    (hok : KfreeOk r.heap.mem ptr) : LiveInv ⟨kfree r.heap ptr, r.live.erase ptr⟩ := by
  obtain ⟨L, hinv, hlive, hnd⟩ := hi
  obtain ⟨b, hb, -, rfl⟩ := hlive ptr hp
  obtain ⟨L', hinv', hkept⟩ := kfree_spec hinv hb hok
  refine LiveInv.intro hinv' (fun q hq => ?_) (hnd.erase _)
  obtain ⟨hqp, hq⟩ := hnd.mem_erase_iff.mp hq
  obtain ⟨c, hc, hcu, rfl⟩ := hlive q hq
  exact ⟨c, hkept c hc hcu (fun h => hqp (by rw [h])), hcu, rfl⟩

/-- A block that is in use and new is added to the live ones. -/
theorem LiveInv.add {h : Heap} {L L' : List Block} {e : Block} {live : List ℕ}
    (hi : HeapInv h L') (he : e ∈ L') (hused : e.used = true)
    (hkept : ∀ q ∈ live, ∃ c ∈ L', c.used = true ∧ q = c.payload)
    (hold : ∀ q ∈ live, ∃ c ∈ L, c.used = true ∧ q = c.payload)
    (hfresh : ∀ c ∈ L, c.used = true → c.addr ≠ e.addr) (hnd : live.Nodup) :
    LiveInv ⟨h, addLive e.payload live⟩ := by
  rw [addLive, if_neg e.payload_ne_zero]
  refine ⟨L', hi, List.forall_mem_cons.mpr ⟨⟨e, he, hused, rfl⟩, hkept⟩,
    List.nodup_cons.mpr ⟨fun hq => ?_, hnd⟩⟩
  obtain ⟨c, hc, hcu, hce⟩ := hold _ hq
  exact hfresh c hc hcu (Block.payload_inj hce.symm)

theorem LiveInv.kmalloc_step {r r' : HeapRun} {size : ℕ} (hi : LiveInv r) (hok : KmallocOk r.heap size)
    (hs : heapStep r (.kmalloc size) = some r') : LiveInv r' := by
  obtain ⟨L, hinv, hlive, hnd⟩ := hi
  obtain ⟨h', p, hcall, hres⟩ := kmalloc_spec hinv hok
  simp only [heapStep, hcall, Option.map_some, Option.some.injEq] at hs
  subst hs
  rcases hres with ⟨rfl, rfl⟩ | ⟨L', e, rfl, ht⟩
  · exact ⟨L, hinv, hlive, hnd⟩
  · refine LiveInv.add ht.inv ht.mem ht.used (fun q hq => ?_) hlive ht.fresh hnd
    obtain ⟨c, hc, hcu, rfl⟩ := hlive q hq
    exact ⟨c, ht.kept c hc hcu, hcu, rfl⟩

theorem LiveInv.krealloc_step {r r' : HeapRun} {ptr newSize : ℕ} (hi : LiveInv r)
    (hok : KreallocOk r.heap ptr newSize) (hs : heapStep r (.krealloc ptr newSize) = some r') :
    LiveInv r' := by
  rw [heapStep] at hs
  by_cases hp : ptr ∈ r.live
  swap
  · rw [if_neg hp] at hs
    cases hs
  rw [if_pos hp] at hs
  obtain ⟨L, hinv, hlive, hnd⟩ := hi
  obtain ⟨b, hb, hbu, rfl⟩ := hlive ptr hp
  have hp0 := b.payload_ne_zero
  by_cases hn : newSize = 0
  · subst hn
    have hfree : krealloc r.heap b.payload 0 = some (Kernel.kfree r.heap b.payload, 0) := by
      simp [krealloc, hp0]
    rw [hfree] at hs
    simp only [Option.map_some, ne_eq, not_true_eq_false, and_false, if_false, addLive,
      if_true, Option.some.injEq] at hs
    subst hs
    exact LiveInv.kfree ⟨L, hinv, hlive, hnd⟩ hp (by simpa [KreallocOk] using hok)
  · obtain ⟨h', p, hcall, hres⟩ := krealloc_spec hinv hb hbu hn hok
    rw [hcall] at hs
    simp only [Option.map_some, hn, not_false_eq_true, and_true, ne_eq, Option.some.injEq] at hs
    subst hs
    have herased : ∀ q ∈ r.live.erase b.payload, ∃ c ∈ L, c.used = true ∧ q = c.payload :=
      fun q hq => hlive q (List.mem_of_mem_erase hq)
    rcases hres with ⟨rfl | rfl, rfl⟩ | ⟨L', e, rfl, hinv', hemem, heu, hkept, hfresh⟩
    · exact ⟨L, hinv, by simpa using hlive, by simpa using hnd⟩
    · rw [if_neg hp0, addLive, if_neg hp0]
      exact ⟨L, hinv, List.forall_mem_cons.mpr ⟨hlive _ hp, herased⟩,
        List.nodup_cons.mpr ⟨hnd.not_mem_erase, hnd.erase _⟩⟩
    · rw [if_neg e.payload_ne_zero]
      refine LiveInv.add hinv' hemem heu (fun q hq => ?_) herased hfresh (hnd.erase _)
      obtain ⟨hqp, hq⟩ := hnd.mem_erase_iff.mp hq
      obtain ⟨c, hc, hcu, rfl⟩ := hlive q hq
      exact ⟨c, hkept c hc hcu (fun h => hqp (by rw [h])), hcu, rfl⟩

/-- A call that meets its condition keeps the invariant. -/
theorem heapStep_inv {r r' : HeapRun} {a : HeapCall} (hi : LiveInv r) (hok : HeapCallOk r a)
    (hs : heapStep r a = some r') : LiveInv r' := by
  cases a with
  | kmalloc size => exact hi.kmalloc_step hok hs
  | kfree ptr =>
    rw [heapStep] at hs
    by_cases hp : ptr ∈ r.live
    · rw [if_pos hp, Option.some.injEq] at hs
      subst hs
      exact hi.kfree hp hok
    · rw [if_neg hp] at hs
      cases hs
  | krealloc ptr newSize => exact hi.krealloc_step hok hs

/-- The kernel image ends above address 0, and its end is rounded up in 32 bits
without wrapping. -/
def ImageEnd (kernelEnd : ℕ) : Prop := 0 < kernelEnd ∧ kernelEnd + pageSize ≤ 2 ^ 32

/-- The heap that `mm_init` sets up: 1 MB from a page on. -/
theorem heapInit_eq (mem : Mem) {kernelEnd : ℕ} (hk : ImageEnd kernelEnd) :
    ∃ start, 0 < start ∧ start < 2 ^ 32 ∧ start % pageSize = 0 ∧
      heapInit mem kernelEnd = ⟨mem, 0, start, start + 0x100000, start⟩ := by
  have hpos : 0 < kernelEnd := hk.1
  have hlt : kernelEnd + 4096 ≤ 2 ^ 32 := hk.2
  refine ⟨(kernelEnd + 4095) / 4096 * 4096, by omega, by omega, Nat.mul_mod_left .., ?_⟩
  unfold heapInit
  rw [wrap_of_lt (n := kernelEnd) (by omega), wrap_of_lt (by rw [pageSize]; omega), pageSize]

theorem heapRunInit_inv {mem : Mem} {kernelEnd : ℕ} (hk : ImageEnd kernelEnd) :
    LiveInv (heapRunInit mem kernelEnd) := by
  obtain ⟨start, hpos, hlt, -, hinit⟩ := heapInit_eq mem hk
  have hend : start + 0x100000 < 2 ^ 64 := by omega
  unfold heapRunInit
  rw [hinit]
  exact ⟨[], ⟨⟨rfl, nofun⟩, List.Pairwise.nil, nofun, hpos, le_rfl, Nat.le_add_right .., hend⟩,
    nofun, List.nodup_nil⟩

/-- The invariant holds in every state of a run of calls that meet their conditions. -/
theorem always_liveInv {mem : Mem} {kernelEnd : ℕ} (hk : ImageEnd kernelEnd)
    {calls : List HeapCall} (hok : Each heapStep HeapCallOk (heapRunInit mem kernelEnd) calls) :
    Always heapStep LiveInv (heapRunInit mem kernelEnd) calls :=
  always_of_each (fun _ _ _ hi h hs => heapStep_inv hi h hs) (heapRunInit_inv hk) hok

/-! ### Live blocks are separate -/

/-- The bytes of the block at a live pointer: `[p, p + block->size)`. -/
def payloadRange (m : Mem) (p : ℕ) : Set ℕ := Set.Ico p (p + blockSize m (blockOf p))

/-- The walk from `heap_free_list` passes `block`. -/
def OnList (h : Heap) (block : ℕ) : Prop :=
  ∃ before next, Seg (blockNext h.mem) h.heapFreeList (before ++ [block]) next

/-- The blocks of the live pointers are separate from one another and from every
header, and lie in the carved part of the heap. -/
structure Separated (r : HeapRun) : Prop where
  /-- No two blocks share a byte. -/
  disjoint : r.live.Pairwise fun p q =>
    Disjoint (payloadRange r.heap.mem p) (payloadRange r.heap.mem q)
  /-- No block shares a byte with a header. -/
  headers : ∀ p ∈ r.live, ∀ block, (OnList r.heap block ∨ ∃ q ∈ r.live, block = blockOf q) →
    Disjoint (payloadRange r.heap.mem p) (header block)
  /-- Every block was carved. -/
  inside : ∀ p ∈ r.live, r.heap.kernelHeapStart ≤ p ∧
    p + blockSize r.heap.mem (blockOf p) ≤ r.heap.kernelHeapCurrent

theorem HeapInv.payloadRange_eq {h : Heap} {L : List Block} {b : Block} (hi : HeapInv h L)
    (hb : b ∈ L) : payloadRange h.mem b.payload = Set.Ico (b.addr + 24) b.stop := by
  unfold payloadRange
  rw [(hi.payload_eq hb).2, (hi.list.holds b hb).1]
  rfl

theorem HeapInv.disjoint_header {h : Heap} {L : List Block} {b c : Block} (hi : HeapInv h L)
    (hb : b ∈ L) (hc : c ∈ L) : Disjoint (payloadRange h.mem b.payload) (header c.addr) := by
  rw [hi.payloadRange_eq hb, Set.disjoint_left]
  intro x hx hx'
  unfold header at hx'
  rw [Set.mem_Ico] at hx hx'
  obtain rfl | ha := hi.eq_or_apart hb hc
  · omega
  · unfold Block.Apart Block.stop at ha
    unfold Block.stop at hx
    omega

theorem LiveInv.separated {r : HeapRun} (hr : LiveInv r) : Separated r := by
  obtain ⟨L, hi, hlive, hnd⟩ := hr
  refine ⟨hnd.imp_of_mem fun {p q} hp hq hpq => ?_, fun p hp block hblock => ?_, fun p hp => ?_⟩
  · obtain ⟨b, hb, -, rfl⟩ := hlive p hp
    obtain ⟨c, hc, -, rfl⟩ := hlive q hq
    have ha := (hi.eq_or_apart hb hc).resolve_left fun h => hpq (by rw [h])
    rw [hi.payloadRange_eq hb, hi.payloadRange_eq hc, Set.disjoint_left]
    intro x hx hx'
    rw [Set.mem_Ico] at hx hx'
    unfold Block.Apart at ha
    omega
  · obtain ⟨b, hb, -, rfl⟩ := hlive p hp
    rcases hblock with ⟨before, next, hwalk⟩ | ⟨q, hq, hblock⟩
    · have hmem : block ∈ L.map Block.addr := Seg.mem_of_walk hi.list.seg hwalk
      obtain ⟨c, hc, rfl⟩ := List.mem_map.mp hmem
      exact hi.disjoint_header hb hc
    · obtain ⟨c, hc, -, rfl⟩ := hlive q hq
      rw [hblock, (hi.payload_eq hc).2]
      exact hi.disjoint_header hb hc
  · obtain ⟨b, hb, -, rfl⟩ := hlive p hp
    obtain ⟨hle, hstop⟩ := hi.within b hb
    rw [(hi.payload_eq hb).2, (hi.list.holds b hb).1]
    unfold Block.stop at hstop
    unfold Block.payload
    exact ⟨by omega, hstop⟩

/-- **Live blocks are separate** in every state of a run of calls that meet their
conditions. -/
theorem live_separated (mem : Mem) (kernelEnd : ℕ) (hk : ImageEnd kernelEnd)
    (calls : List HeapCall) (hok : Each heapStep HeapCallOk (heapRunInit mem kernelEnd) calls) :
    Always heapStep Separated (heapRunInit mem kernelEnd) calls :=
  (always_liveInv hk hok).mono fun _ => LiveInv.separated

/-- A freed block is split, and its neighbour moves. -/
theorem live_separated_split :
    Always heapStep Separated (heapRunInit (fun _ => 0) 0x200000)
      [.kmalloc 100, .kmalloc 8, .kfree 0x200018, .kmalloc 16, .krealloc 0x200098 300] :=
  live_separated _ _ ⟨by decide, by decide⟩ _ (by decide +kernel)

/-- Three blocks, of which the first and then the second are freed: the second, glued
to the first, reaches over the third, and half of it is given out once more. -/
theorem live_overlap :
    ¬ ∀ mem kernelEnd, ImageEnd kernelEnd → ∀ calls,
      Always heapStep Separated (heapRunInit mem kernelEnd) calls := by
  intro h
  have hall := h (fun _ => 0) 0x200000 ⟨by decide, by decide⟩
    [.kmalloc 8, .kmalloc 8, .kmalloc 8, .kfree 0x200018, .kfree 0x200038, .kmalloc 40]
  have hend : (run heapStep (heapRunInit (fun _ => 0) 0x200000)
      [.kmalloc 8, .kmalloc 8, .kmalloc 8, .kfree 0x200018, .kfree 0x200038, .kmalloc 40]).map
        (fun r => (r.live, blockSize r.heap.mem (blockOf 0x200038),
          blockSize r.heap.mem (blockOf 0x200058))) =
      some ([0x200038, 0x200058], 40, 8) := by decide +kernel
  obtain ⟨r, hr, hlive⟩ := Option.map_eq_some_iff.mp hend
  obtain ⟨hlive, hsizes⟩ := Prod.ext_iff.mp hlive
  obtain ⟨hsize₁, hsize₂⟩ := Prod.ext_iff.mp hsizes
  have hdis := (hall.of_run hr).disjoint
  rw [show r.live = [0x200038, 0x200058] from hlive] at hdis
  have hpair := List.rel_of_pairwise_cons hdis (List.mem_singleton_self _)
  unfold payloadRange at hpair
  rw [show blockSize r.heap.mem (blockOf 0x200038) = 40 from hsize₁,
    show blockSize r.heap.mem (blockOf 0x200058) = 8 from hsize₂, Set.disjoint_left] at hpair
  exact hpair (a := 0x200058) ⟨by decide, by decide⟩ ⟨by decide, by decide⟩

/-! ### The search ends -/

/-- The list is no cycle, and the search of the next `kmalloc` ends. -/
def ListEnds (r : HeapRun) : Prop :=
  (∃ blocks, Seg (blockNext r.heap.mem) r.heap.heapFreeList blocks 0) ∧
    ∀ size, (kmalloc r.heap size).isSome

theorem LiveInv.listEnds {r : HeapRun} (hr : LiveInv r) : ListEnds r := by
  obtain ⟨L, hi, -, -⟩ := hr
  refine ⟨⟨_, hi.list.seg⟩, fun size => ?_⟩
  unfold kmalloc
  by_cases h0 : size = 0
  · rw [if_pos h0]
    rfl
  · have hsearch : searchHeap r.heap size = some _ := hi.searchHeap_eq
    unfold searchHeap at hsearch
    rw [if_neg h0, hsearch]
    rfl

/-- **The search ends** after every run of calls that meet their conditions. -/
theorem free_list_ends (mem : Mem) (kernelEnd : ℕ) (hk : ImageEnd kernelEnd)
    (calls : List HeapCall) (hok : Each heapStep HeapCallOk (heapRunInit mem kernelEnd) calls) :
    Always heapStep ListEnds (heapRunInit mem kernelEnd) calls :=
  (always_liveInv hk hok).mono fun _ => LiveInv.listEnds

/-- A freed block is split, and its parts are joined again. -/
theorem free_list_ends_split :
    Always heapStep ListEnds (heapRunInit (fun _ => 0) 0x200000)
      [.kmalloc 100, .kmalloc 8, .kfree 0x200018, .kmalloc 16, .kfree 0x200018, .kmalloc 8] :=
  free_list_ends _ _ ⟨by decide, by decide⟩ _ (by decide +kernel)

/-- Two blocks that are freed and glued together reach over the end of the carved
part. The rest of a split then lies where the next block is carved, and is its own
second successor. -/
theorem search_never_ends :
    ¬ ∀ mem kernelEnd, ImageEnd kernelEnd → ∀ calls,
      (∀ c ∈ calls, ∀ ptr newSize, c ≠ HeapCall.krealloc ptr newSize) →
      Always heapStep ListEnds (heapRunInit mem kernelEnd) calls := by
  intro h
  have hall := h (fun _ => 0) 0x200000 ⟨by decide, by decide⟩
    [.kmalloc 8, .kmalloc 8, .kfree 0x200018, .kfree 0x200038, .kmalloc 8, .kmalloc 16] (by simp)
  have hend : (run heapStep (heapRunInit (fun _ => 0) 0x200000)
      [.kmalloc 8, .kmalloc 8, .kfree 0x200018, .kfree 0x200038, .kmalloc 8, .kmalloc 16]).map
        (fun r => (r.heap.heapFreeList, blockNext r.heap.mem 0x200040,
          blockNext r.heap.mem 0x200020)) =
      some (0x200040, 0x200020, 0x200040) := by decide +kernel
  obtain ⟨r, hr, hlinks⟩ := Option.map_eq_some_iff.mp hend
  obtain ⟨hhead, hlinks⟩ := Prod.ext_iff.mp hlinks
  obtain ⟨hnext₁, hnext₂⟩ := Prod.ext_iff.mp hlinks
  obtain ⟨⟨blocks, hseg⟩, -⟩ := hall.of_run hr
  rw [show r.heap.heapFreeList = 0x200040 from hhead] at hseg
  have hcycle : Seg (blockNext r.heap.mem) 0x200040 [0x200040, 0x200020] 0x200040 :=
    ⟨rfl, by decide, hnext₁, by decide, hnext₂⟩
  exact absurd (hseg.no_cycle hcycle) (by decide)

end PrismaticOS.Kernel
