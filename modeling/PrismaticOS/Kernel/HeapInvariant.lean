import PrismaticOS.Kernel.HeapBlocks

/-!
# The invariant of the kernel heap

`HeapInv h L`: the heap `h` is well formed and its blocks are `L`. The list order
and the address order are not related, and the blocks need not cover the heap;
what matters is that no two share a byte and that the headers in memory are the
blocks of the list.

Each edit the allocator makes keeps the invariant: a flag is set (`setUsed`), a
block is split (`split`), a block is carved (`carve`), a block is glued to the next
one on the list (`merge`) — the last only if that one is also the next in memory.
-/

namespace PrismaticOS.Kernel

open PrismaticOS.Library

/-! ### The invariant -/

/-- **The heap is well formed** and its blocks are `L`: the list is what the links
say, no two blocks share a byte, and all lie in the carved part of the heap. -/
structure HeapInv (h : Heap) (L : List Block) : Prop where
  /-- The list. -/
  list : BlockList h.mem h.heapFreeList L
  /-- No two blocks share a byte. -/
  apart : L.Pairwise Block.Apart
  /-- Every block was carved. -/
  within : ∀ b ∈ L, h.kernelHeapStart ≤ b.addr ∧ b.stop ≤ h.kernelHeapCurrent
  /-- The heap does not start at `NULL`. -/
  start_pos : 0 < h.kernelHeapStart
  /-- What is carved starts at the start. -/
  start_le : h.kernelHeapStart ≤ h.kernelHeapCurrent
  /-- What is carved ends before the end. -/
  current_le : h.kernelHeapCurrent ≤ h.kernelHeapEnd
  /-- The end is an address. -/
  end_lt : h.kernelHeapEnd < 2 ^ 64

namespace HeapInv

variable {h : Heap} {L L₁ L₂ M N : List Block} {b c : Block} {m' : Mem}

theorem stop_lt (hi : HeapInv h L) (hb : b ∈ L) : b.stop < 2 ^ 64 := by
  have h₁ := (hi.within b hb).2
  have h₂ := hi.current_le
  have h₃ := hi.end_lt
  omega

theorem apart_of_mem (hi : HeapInv h (L₁ ++ N ++ L₂)) (hb : b ∈ N) (hc : c ∈ L₁ ++ L₂) :
    b.Apart c := by
  have ha := hi.apart
  rw [List.pairwise_append, List.pairwise_append] at ha
  obtain ⟨⟨-, -, h₁⟩, -, h₂⟩ := ha
  rcases List.mem_append.mp hc with hc | hc
  · exact Std.Symm.symm _ _ (h₁ c hc b hb)
  · exact h₂ b (List.mem_append_right L₁ hb) c hc

theorem eq_or_apart (hi : HeapInv h L) (hb : b ∈ L) (hc : c ∈ L) : b = c ∨ b.Apart c := by
  by_cases he : b = c
  · exact .inl he
  · exact .inr (hi.apart.forall hb hc he)

/-- **An edit of the heap**: the blocks `N` are replaced by `M`, which lie in the
bytes `N` had. -/
theorem replace (hi : HeapInv h (L₁ ++ N ++ L₂))
    (hframe : ∀ c ∈ L₁ ++ L₂, SameHeader m' h.mem c.addr)
    (hseg : ∀ p q, Seg (blockNext h.mem) p (N.map Block.addr) q →
      Seg (blockNext m') p (M.map Block.addr) q)
    (hM : ∀ c ∈ M, c.Holds m') (hpair : M.Pairwise Block.Apart)
    (hsub : ∀ c, (∀ n ∈ N, n.Apart c) → ∀ b ∈ M, b.Apart c)
    (hin : ∀ b ∈ M, h.kernelHeapStart ≤ b.addr ∧ b.stop ≤ h.kernelHeapCurrent) :
    HeapInv { h with mem := m' } (L₁ ++ M ++ L₂) := by
  refine ⟨hi.list.replace hframe hseg hM, ?_, ?_, hi.start_pos, hi.start_le, hi.current_le,
    hi.end_lt⟩
  · have hMc : ∀ b ∈ M, ∀ c ∈ L₁ ++ L₂, b.Apart c := fun b hb c hc =>
      hsub c (fun n hn => hi.apart_of_mem hn hc) b hb
    have ha := hi.apart
    rw [List.pairwise_append, List.pairwise_append] at ha ⊢
    obtain ⟨⟨h₁, -, -⟩, h₂, h₁₂⟩ := ha
    refine ⟨⟨h₁, hpair, fun c hc b hb => Std.Symm.symm _ _ (hMc b hb c (List.mem_append_left L₂ hc))⟩, h₂,
      fun b hb c hc => ?_⟩
    rcases List.mem_append.mp hb with hb | hb
    · exact h₁₂ b (List.mem_append_left N hb) c hc
    · exact hMc b hb c (List.mem_append_right L₁ hc)
  · intro b hb
    by_cases hbM : b ∈ M
    · exact hin b hbM
    · exact hi.within b (by simp only [List.mem_append] at hb ⊢; tauto)

end HeapInv

/-! ### Taking a block -/

section

variable {h : Heap} {L L₁ L₂ : List Block} {b d : Block} {m : Mem} {size : ℕ}

/-- The headers of other blocks are other bytes. -/
theorem Block.Apart.header {c : Block} (ha : b.Apart c) :
    c.addr + 24 ≤ b.addr ∨ b.addr + 24 ≤ c.addr := by
  unfold Block.Apart Block.stop at ha
  omega

/-- A free block is taken as it is. -/
theorem HeapInv.setUsed (hi : HeapInv h (L₁ ++ b :: L₂)) (u : Bool) :
    HeapInv { h with mem := setBlockUsed h.mem b.addr u } (L₁ ++ { b with used := u } :: L₂) := by
  have hi' : HeapInv h (L₁ ++ [b] ++ L₂) := by simpa using hi
  obtain ⟨hsize, -⟩ := hi.list.holds b (by simp)
  have hin := hi.within b (by simp)
  have hgoal : HeapInv { h with mem := setBlockUsed h.mem b.addr u }
      (L₁ ++ [{ b with used := u }] ++ L₂) := by
    refine hi'.replace (fun c hc => ?_) (fun p q hpq => ?_) ?_ (List.pairwise_singleton _ _) ?_ ?_
    · exact sameHeader_setBlockUsed u (hi'.apart_of_mem (by simp) hc).header
    · simpa using hpq
    · simp [Block.Holds, hsize]
    · intro c hc x hx
      rw [List.mem_singleton] at hx
      subst hx
      exact hc b (by simp)
    · rintro c hc
      rw [List.mem_singleton] at hc
      subst hc
      exact hin
  simpa using hgoal

/-- A block is split: the rest is a free block after it. -/
theorem HeapInv.split (hi : HeapInv h (L₁ ++ b :: L₂)) (hs : size + 24 < b.size) :
    HeapInv { h with mem := splitBlock h.mem b.addr size }
      (L₁ ++ { b with size := size } :: ⟨b.addr + 24 + size, b.size - size - 24, false⟩ :: L₂) := by
  have hi' : HeapInv h (L₁ ++ [b] ++ L₂) := by simpa using hi
  obtain ⟨hsize, hused⟩ := hi.list.holds b (by simp)
  have hin := hi.within b (by simp)
  have hstop : b.addr + 24 + b.size < 2 ^ 64 := hi.stop_lt (b := b) (by simp)
  obtain ⟨h₁, h₂, h₃, h₄, h₅, h₆⟩ :=
    splitBlock_headers (m := h.mem) (a := b.addr) (by rw [hsize]; exact hs) (by rw [hsize]; exact hstop)
  have hgoal : HeapInv { h with mem := splitBlock h.mem b.addr size }
      (L₁ ++ [{ b with size := size }, ⟨b.addr + 24 + size, b.size - size - 24, false⟩] ++ L₂) := by
    refine hi'.replace (fun c hc => ?_) (fun p q hpq => ?_) (fun c hc => ?_) ?_ (fun c hc x hx => ?_)
      (fun x hx => ?_)
    · have ha := hi'.apart_of_mem (List.mem_singleton_self b) hc
      unfold Block.Apart Block.stop at ha
      exact splitBlock_frame (by omega) (by omega) (by omega)
    · simp only [List.map_cons, List.map_nil, seg_cons, seg_nil] at hpq ⊢
      obtain ⟨rfl, hne, hnext⟩ := hpq
      exact ⟨rfl, hne, h₃, by omega, h₆.trans hnext⟩
    · simp only [List.mem_cons, List.not_mem_nil, or_false] at hc
      rcases hc with rfl | rfl
      · exact ⟨h₁, h₂.trans hused⟩
      · exact ⟨h₄.trans (by rw [hsize]), h₅⟩
    · simp only [List.pairwise_cons, List.mem_singleton, forall_eq, List.not_mem_nil,
        IsEmpty.forall_iff, implies_true, List.Pairwise.nil, and_true]
      exact .inl le_rfl
    · have ha := hc b (List.mem_singleton_self b)
      simp only [List.mem_cons, List.not_mem_nil, or_false] at hx
      unfold Block.Apart Block.stop at ha ⊢
      rcases hx with rfl | rfl <;> simp only <;> omega
    · simp only [List.mem_cons, List.not_mem_nil, or_false] at hx
      unfold Block.stop at hin ⊢
      rcases hx with rfl | rfl <;> simp only <;> omega
  simpa using hgoal

/-- A block that is carved is above the blocks that are there. -/
theorem HeapInv.carve_sameHeader (hi : HeapInv h L) {c : Block} (hc : c ∈ L) (size : ℕ) :
    SameHeader (carveBlock h size).mem h.mem c.addr := by
  have hsep : c.addr + 24 ≤ h.kernelHeapCurrent ∨ h.kernelHeapCurrent + 24 ≤ c.addr := by
    have := (hi.within c hc).2
    unfold Block.stop at this
    omega
  exact (sameHeader_setBlockNext hsep).trans
    ((sameHeader_setBlockUsed true hsep).trans (sameHeader_setBlockSize hsep))

/-- A block is carved. -/
theorem HeapInv.carve (hi : HeapInv h L)
    (hroom : h.kernelHeapCurrent + size + 24 ≤ h.kernelHeapEnd) :
    HeapInv (carveBlock h size) (⟨h.kernelHeapCurrent, size, true⟩ :: L) := by
  have hend := hi.end_lt
  have hpos : h.kernelHeapCurrent ≠ 0 := by
    have h₁ := hi.start_pos
    have h₂ := hi.start_le
    omega
  have hcur : (carveBlock h size).kernelHeapCurrent = h.kernelHeapCurrent + (size + 24) :=
    wrap_of_lt (by simp only [sizeofHeapBlock]; omega)
  have hhead : h.heapFreeList < 2 ^ 64 := hi.list.head_lt fun c hc => hi.stop_lt hc
  have hframe : ∀ c ∈ L, SameHeader (carveBlock h size).mem h.mem c.addr := fun c hc =>
    hi.carve_sameHeader hc size
  have hlist := hi.list.congr hframe
  constructor
  · refine ⟨⟨rfl, hpos, ?_⟩, fun c hc => ?_⟩
    · have hnext : blockNext (carveBlock h size).mem h.kernelHeapCurrent = h.heapFreeList :=
        blockNext_setBlockNext hhead
      rw [hnext]
      exact hlist.seg
    · rcases List.mem_cons.mp hc with rfl | hc
      · have hlt : size < 2 ^ 64 := by omega
        have hsize : blockSize (carveBlock h size).mem h.kernelHeapCurrent = size := by
          simp only [carveBlock, blockSize_setBlockNext, blockSize_setBlockUsed,
            blockSize_setBlockSize hlt]
        exact ⟨hsize, by simp [carveBlock]⟩
      · exact hlist.holds c hc
  · refine List.pairwise_cons.mpr ⟨fun c hc => .inr (hi.within c hc).2, hi.apart⟩
  · intro c hc
    have hle := hi.start_le
    rw [hcur]
    rcases List.mem_cons.mp hc with rfl | hc
    · exact ⟨hle, by unfold Block.stop; simp only; omega⟩
    · have hin := hi.within c hc
      exact ⟨hin.1, by omega⟩
  · exact hi.start_pos
  · rw [hcur]
    have := hi.start_le
    simp only [carveBlock]
    omega
  · rw [hcur]
    simp only [carveBlock]
    omega
  · exact hend

/-- A block is glued to the next one on the list, which is the next one in memory. -/
theorem HeapInv.merge (hi : HeapInv h (L₁ ++ b :: d :: L₂)) (hadj : d.addr = b.stop) :
    HeapInv { h with mem := mergeNext h.mem b.addr }
      (L₁ ++ { b with size := b.size + (d.size + 24) } :: L₂) := by
  have hi' : HeapInv h (L₁ ++ [b, d] ++ L₂) := by simpa using hi
  obtain ⟨hsize, hused⟩ := hi.list.holds b (by simp)
  obtain ⟨hsized, -⟩ := hi.list.holds d (by simp)
  have hinb := hi.within b (by simp)
  have hind := hi.within d (by simp)
  have hstop := hi.stop_lt (b := d) (by simp)
  unfold Block.stop at hinb hind hstop hadj
  have hnext : blockNext h.mem b.addr = d.addr := hi.list.next_eq
  obtain ⟨h₁, h₂, h₃⟩ := mergeNext_headers hnext (by omega) (by rw [hsize, hsized]; omega)
  have hgoal : HeapInv { h with mem := mergeNext h.mem b.addr }
      (L₁ ++ [{ b with size := b.size + (d.size + 24) }] ++ L₂) := by
    refine hi'.replace (fun c hc => ?_) (fun p q hpq => ?_) (fun c hc => ?_)
      (List.pairwise_singleton _ _) (fun c hc x hx => ?_) (fun x hx => ?_)
    · exact mergeNext_frame (hi'.apart_of_mem (b := b) (by simp) hc).header
    · simp only [List.map_cons, List.map_nil, seg_cons, seg_nil] at hpq ⊢
      obtain ⟨rfl, hne, -, -, hq⟩ := hpq
      exact ⟨rfl, hne, h₃.trans hq⟩
    · rw [List.mem_singleton] at hc
      subst hc
      exact ⟨h₁.trans (by rw [hsize, hsized]), h₂.trans hused⟩
    · have hb := hc b (by simp)
      have hd := hc d (by simp)
      rw [List.mem_singleton] at hx
      subst hx
      unfold Block.Apart Block.stop at hb hd ⊢
      simp only
      omega
    · rw [List.mem_singleton] at hx
      subst hx
      exact ⟨hinb.1, by unfold Block.stop; simp only; omega⟩
  simpa using hgoal

/-- The headers stay, so the heap is as well formed as before. -/
theorem HeapInv.congr_mem {m' : Mem} (hi : HeapInv h L)
    (hframe : ∀ c ∈ L, SameHeader m' h.mem c.addr) : HeapInv { h with mem := m' } L :=
  ⟨hi.list.congr hframe, hi.apart, hi.within, hi.start_pos, hi.start_le, hi.current_le, hi.end_lt⟩

end

end PrismaticOS.Kernel
