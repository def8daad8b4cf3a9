import PrismaticOS.Kernel.Heap
import PrismaticOS.Library.LinkedList
import Mathlib.Data.Finset.Card
import Mathlib.Data.List.Dedup

/-!
# The blocks of the kernel heap

An abstract view of the kernel heap: the list of its blocks, each with its address,
its size and whether it is in use, in the order of the links. `BlockList` says that
the headers in memory are such a list.

Every edit the allocator makes replaces a few consecutive blocks by others and
leaves the rest alone (`BlockList.replace`): a block is taken, taken and split, put
back, or put back and glued to the next one. What the edit does to the headers it
touches is said once for each edit (`splitBlock_*`), and that it touches no other
header is a frame.
-/

namespace PrismaticOS.Kernel

open PrismaticOS.Library

/-! ### Headers -/

/-- The bytes of a header. -/
def header (block : ℕ) : Set ℕ := Set.Ico block (block + 24)

theorem disjoint_header {a b : ℕ} (h : a + 24 ≤ b ∨ b + 24 ≤ a) :
    header a ⊆ (header b)ᶜ := by
  intro x hx hx'
  simp only [header, Set.mem_Ico] at hx hx'
  omega

/-- Two memories show the same header. -/
structure SameHeader (m' m : Mem) (block : ℕ) : Prop where
  /-- The same size. -/
  size : blockSize m' block = blockSize m block
  /-- The same flag. -/
  used : blockUsed m' block = blockUsed m block
  /-- The same link. -/
  next : blockNext m' block = blockNext m block

/-- A header is in its own bytes. -/
theorem SameHeader.of_eqOn {m' m : Mem} {block : ℕ} (h : Set.EqOn m' m (header block)) :
    SameHeader m' m block := by
  refine ⟨loadLE_congr (h.mono ?_), ?_, loadLE_congr (h.mono ?_)⟩
  · exact Set.Ico_subset_Ico le_rfl (by omega)
  · unfold blockUsed
    rw [loadLE_congr (h.mono (Set.Ico_subset_Ico (by omega) (by omega)))]
  · exact Set.Ico_subset_Ico (by omega) (by omega)

theorem SameHeader.trans {m₁ m₂ m₃ : Mem} {block : ℕ} (h : SameHeader m₁ m₂ block)
    (h' : SameHeader m₂ m₃ block) : SameHeader m₁ m₃ block :=
  ⟨h.size.trans h'.size, h.used.trans h'.used, h.next.trans h'.next⟩

variable {m : Mem} {b c v : ℕ}

@[simp] theorem blockSize_setBlockSize (h : v < 2 ^ 64) : blockSize (setBlockSize m b v) b = v := by
  rw [blockSize, setBlockSize, loadLE_storeLE, show 256 ^ 8 = 2 ^ 64 from rfl, Nat.mod_eq_of_lt h]

@[simp] theorem blockUsed_setBlockUsed (u : Bool) : blockUsed (setBlockUsed m b u) b = u := by
  rw [blockUsed, setBlockUsed, loadLE_storeLE]
  cases u <;> rfl

@[simp] theorem blockNext_setBlockNext (h : v < 2 ^ 64) : blockNext (setBlockNext m b v) b = v := by
  rw [blockNext, setBlockNext, loadLE_storeLE, show 256 ^ 8 = 2 ^ 64 from rfl, Nat.mod_eq_of_lt h]

/-- Other fields of the same header. -/
@[simp] theorem blockUsed_setBlockSize : blockUsed (setBlockSize m b v) b = blockUsed m b := by
  simp (disch := omega) only [blockUsed, setBlockSize, loadLE_storeLE_of_disjoint]

@[simp] theorem blockNext_setBlockSize : blockNext (setBlockSize m b v) b = blockNext m b := by
  simp (disch := omega) only [blockNext, setBlockSize, loadLE_storeLE_of_disjoint]

@[simp] theorem blockSize_setBlockUsed (u : Bool) :
    blockSize (setBlockUsed m b u) b = blockSize m b := by
  simp (disch := omega) only [blockSize, setBlockUsed, loadLE_storeLE_of_disjoint]

@[simp] theorem blockNext_setBlockUsed (u : Bool) :
    blockNext (setBlockUsed m b u) b = blockNext m b := by
  simp (disch := omega) only [blockNext, setBlockUsed, loadLE_storeLE_of_disjoint]

@[simp] theorem blockSize_setBlockNext : blockSize (setBlockNext m b v) b = blockSize m b := by
  simp (disch := omega) only [blockSize, setBlockNext, loadLE_storeLE_of_disjoint]

@[simp] theorem blockUsed_setBlockNext : blockUsed (setBlockNext m b v) b = blockUsed m b := by
  simp (disch := omega) only [blockUsed, setBlockNext, loadLE_storeLE_of_disjoint]

/-- A store into a header changes that header only. -/
theorem setBlockSize_eqOn : Set.EqOn (setBlockSize m b v) m (header b)ᶜ :=
  (storeLE_eqOn m b 8 v).mono
    (Set.compl_subset_compl.mpr (Set.Ico_subset_Ico le_rfl (by omega)))

theorem setBlockUsed_eqOn (u : Bool) : Set.EqOn (setBlockUsed m b u) m (header b)ᶜ :=
  (storeLE_eqOn m (b + 8) 1 u.toNat).mono
    (Set.compl_subset_compl.mpr (Set.Ico_subset_Ico (by omega) (by omega)))

theorem setBlockNext_eqOn : Set.EqOn (setBlockNext m b v) m (header b)ᶜ :=
  (storeLE_eqOn m (b + 16) 8 v).mono
    (Set.compl_subset_compl.mpr (Set.Ico_subset_Ico (by omega) (by omega)))

/-- Another header is not changed. -/
theorem sameHeader_setBlockSize (h : c + 24 ≤ b ∨ b + 24 ≤ c) :
    SameHeader (setBlockSize m b v) m c :=
  .of_eqOn (setBlockSize_eqOn.mono (disjoint_header h))

theorem sameHeader_setBlockUsed (u : Bool)
    (h : c + 24 ≤ b ∨ b + 24 ≤ c) :
    SameHeader (setBlockUsed m b u) m c :=
  .of_eqOn ((setBlockUsed_eqOn u).mono (disjoint_header h))

theorem sameHeader_setBlockNext (h : c + 24 ≤ b ∨ b + 24 ≤ c) :
    SameHeader (setBlockNext m b v) m c :=
  .of_eqOn (setBlockNext_eqOn.mono (disjoint_header h))

theorem blockNext_lt (m : Mem) (b : ℕ) : blockNext m b < 2 ^ 64 := loadLE_lt m (b + 16) 8

/-- What a split does to the two headers it writes, when it stays below the end of
the address space. -/
theorem splitBlock_headers {a size : ℕ} (hsize : size + 24 < blockSize m a)
    (hlt : a + 24 + blockSize m a < 2 ^ 64) :
    blockSize (splitBlock m a size) a = size ∧
      blockUsed (splitBlock m a size) a = blockUsed m a ∧
      blockNext (splitBlock m a size) a = a + 24 + size ∧
      blockSize (splitBlock m a size) (a + 24 + size) = blockSize m a - size - 24 ∧
      blockUsed (splitBlock m a size) (a + 24 + size) = false ∧
      blockNext (splitBlock m a size) (a + 24 + size) = blockNext m a := by
  have hnew : wrap 64 (a + sizeofHeapBlock + size) = a + 24 + size :=
    wrap_of_lt (by simp only [sizeofHeapBlock]; omega)
  have hrest : wsub 64 (wsub 64 (blockSize m a) size) sizeofHeapBlock = blockSize m a - size - 24 := by
    have hinner : wsub 64 (blockSize m a) size = blockSize m a - size :=
      wsub_of_le (by omega) (by omega)
    rw [hinner, sizeofHeapBlock, wsub_of_le (by omega) (by omega)]
  have hnext := blockNext_lt m a
  have hrest_lt : blockSize m a - size - 24 < 2 ^ 64 := by omega
  unfold splitBlock
  simp only [hnew, hrest]
  generalize blockSize m a - size - 24 = rest at *
  simp (disch := omega) only [blockSize, blockUsed, blockNext, setBlockSize, setBlockUsed,
    setBlockNext, loadLE_storeLE, loadLE_storeLE_of_disjoint] at *
  exact ⟨Nat.mod_eq_of_lt (by omega), trivial, Nat.mod_eq_of_lt (by omega),
    Nat.mod_eq_of_lt (by omega), rfl, Nat.mod_eq_of_lt hnext⟩

theorem splitBlock_frame {a c size : ℕ} (hlt : a + 24 + size < 2 ^ 64)
    (ha : c + 24 ≤ a ∨ a + 24 ≤ c) (hnew : c + 24 ≤ a + 24 + size ∨ a + 24 + size + 24 ≤ c) :
    SameHeader (splitBlock m a size) m c := by
  have hw : wrap 64 (a + sizeofHeapBlock + size) = a + 24 + size :=
    wrap_of_lt (by simp only [sizeofHeapBlock]; omega)
  unfold splitBlock
  simp only [hw]
  exact (sameHeader_setBlockNext ha).trans ((sameHeader_setBlockSize ha).trans
    ((sameHeader_setBlockNext hnew).trans ((sameHeader_setBlockUsed false hnew).trans
      (sameHeader_setBlockSize hnew))))

/-- What gluing a block to the next one does, the two being different bytes. -/
theorem mergeNext_headers {a d : ℕ} (hd : blockNext m a = d) (hsep : d + 24 ≤ a ∨ a + 24 ≤ d)
    (hlt : blockSize m a + (blockSize m d + 24) < 2 ^ 64) :
    blockSize (mergeNext m a) a = blockSize m a + (blockSize m d + 24) ∧
      blockUsed (mergeNext m a) a = blockUsed m a ∧ blockNext (mergeNext m a) a = blockNext m d := by
  have hsame : SameHeader (setBlockSize m a (blockSize m a + (blockSize m d + 24))) m d :=
    sameHeader_setBlockSize hsep
  unfold mergeNext
  simp only [sizeofHeapBlock, hd, wrap_of_lt hlt, blockNext_setBlockSize, hsame.next,
    blockSize_setBlockNext, blockUsed_setBlockNext, blockUsed_setBlockSize,
    blockSize_setBlockSize hlt, blockNext_setBlockNext (blockNext_lt m d), and_self]

theorem mergeNext_frame {a c : ℕ} (h : c + 24 ≤ a ∨ a + 24 ≤ c) : SameHeader (mergeNext m a) m c :=
  (sameHeader_setBlockNext h).trans (sameHeader_setBlockSize h)

/-! ### Blocks -/

/-- A block of the heap. -/
structure Block where
  /-- The address of its header. -/
  addr : ℕ
  /-- How many bytes it has for its caller. -/
  size : ℕ
  /-- Whether it is in use. -/
  used : Bool
  deriving DecidableEq

namespace Block

/-- The pointer to the caller's bytes. -/
def payload (b : Block) : ℕ := b.addr + 24

/-- The first address after the block. -/
def stop (b : Block) : ℕ := b.addr + 24 + b.size

/-- Two blocks share no byte. -/
def Apart (b c : Block) : Prop := b.stop ≤ c.addr ∨ c.stop ≤ b.addr

instance : Std.Symm Apart := ⟨fun _ _ h => Or.symm h⟩

/-- The header of the block is in memory. -/
def Holds (m : Mem) (b : Block) : Prop := blockSize m b.addr = b.size ∧ blockUsed m b.addr = b.used

/-- The block is free and large enough. -/
def Fits (size : ℕ) (b : Block) : Prop := b.used = false ∧ size ≤ b.size

instance (size : ℕ) (b : Block) : Decidable (b.Fits size) := inferInstanceAs (Decidable (_ ∧ _))

theorem Holds.congr {m' m : Mem} {b : Block} (h : b.Holds m) (hs : SameHeader m' m b.addr) :
    b.Holds m' := ⟨hs.size.trans h.1, hs.used.trans h.2⟩

end Block

/-- The blocks on the list from `head` are `L`. -/
structure BlockList (m : Mem) (head : ℕ) (L : List Block) : Prop where
  /-- The links. -/
  seg : Seg (blockNext m) head (L.map Block.addr) 0
  /-- The headers. -/
  holds : ∀ b ∈ L, b.Holds m

namespace BlockList

variable {m m' : Mem} {head : ℕ} {L L₁ L₂ M N : List Block}

/-- **An edit of the list**: the blocks `N` are replaced by `M`, and every other
block keeps its header. -/
theorem replace (h : BlockList m head (L₁ ++ N ++ L₂))
    (hframe : ∀ c ∈ L₁ ++ L₂, SameHeader m' m c.addr)
    (hseg : ∀ p q, Seg (blockNext m) p (N.map Block.addr) q →
      Seg (blockNext m') p (M.map Block.addr) q)
    (hM : ∀ c ∈ M, c.Holds m') : BlockList m' head (L₁ ++ M ++ L₂) := by
  have hnext : ∀ K : List Block, K ⊆ L₁ ++ L₂ →
      ∀ y ∈ K.map Block.addr, blockNext m' y = blockNext m y := by
    intro K hK y hy
    obtain ⟨c, hc, rfl⟩ := List.mem_map.mp hy
    exact (hframe c (hK hc)).next
  constructor
  · have hs := h.seg
    simp only [List.map_append, List.append_assoc] at hs ⊢
    obtain ⟨p, h₁, hs⟩ := Seg.append.mp hs
    obtain ⟨q, hN, h₂⟩ := Seg.append.mp hs
    exact Seg.append.mpr ⟨p, h₁.congr (hnext L₁ (by simp)),
      Seg.append.mpr ⟨q, hseg p q hN, h₂.congr (hnext L₂ (by simp))⟩⟩
  · intro c hc
    have hold : c ∈ L₁ ++ L₂ → c.Holds m' := fun hc' =>
      (h.holds c (by simp at hc' ⊢; tauto)).congr (hframe c hc')
    simp only [List.mem_append] at hc hold
    rcases hc with (hc | hc) | hc
    · exact hold (.inl hc)
    · exact hM c hc
    · exact hold (.inr hc)

/-- Nothing that keeps the headers changes the list. -/
theorem congr (h : BlockList m head L) (hframe : ∀ c ∈ L, SameHeader m' m c.addr) :
    BlockList m' head L := by
  refine ⟨h.seg.congr fun y hy => ?_, fun c hc => (h.holds c hc).congr (hframe c hc)⟩
  obtain ⟨c, hc, rfl⟩ := List.mem_map.mp hy
  exact (hframe c hc).next

theorem addr_ne_zero (h : BlockList m head L) {b : Block} (hb : b ∈ L) : b.addr ≠ 0 :=
  h.seg.ne_zero (List.mem_map_of_mem hb)

theorem eq_of_addr (h : BlockList m head L) {b c : Block} (hb : b ∈ L) (hc : c ∈ L)
    (he : b.addr = c.addr) : b = c := by
  obtain ⟨hbs, hbu⟩ := h.holds b hb
  obtain ⟨hcs, hcu⟩ := h.holds c hc
  cases b
  cases c
  simp only at he hbs hcs hbu hcu
  subst he
  rw [← hbs, ← hcs, ← hbu, ← hcu]

/-- The link of a block leads to the block after it. -/
theorem next_eq {b : Block} (h : BlockList m head (L₁ ++ b :: L₂)) :
    blockNext m b.addr = (L₂.map Block.addr).headD 0 := by
  have hs := h.seg
  rw [List.map_append, List.map_cons] at hs
  obtain ⟨-, -, hr⟩ := hs.of_append
  cases L₂ with
  | nil => exact hr
  | cons c L₂ => exact hr.1

/-- The head is an address if the blocks are. -/
theorem head_lt (h : BlockList m head L) (hlt : ∀ b ∈ L, b.stop < 2 ^ 64) : head < 2 ^ 64 := by
  cases L with
  | nil =>
    rw [show head = 0 from h.seg]
    exact Nat.two_pow_pos 64
  | cons c L =>
    have hc := hlt c List.mem_cons_self
    rw [h.seg.1]
    unfold Block.stop at hc
    omega

/-- There are fewer blocks than addresses. -/
theorem length_lt (h : BlockList m head L) (hhead : head < 2 ^ 64) : L.length < addresses := by
  have hlt : ∀ x ∈ L.map Block.addr, x < 2 ^ 64 := by
    have key : ∀ (xs : List ℕ) (p : ℕ), p < 2 ^ 64 → Seg (blockNext m) p xs 0 →
        ∀ x ∈ xs, x < 2 ^ 64 := by
      intro xs
      induction xs with
      | nil => simp
      | cons y ys ih =>
        rintro p hp ⟨rfl, -, hs⟩ x hx
        rcases List.mem_cons.mp hx with rfl | hx
        · exact hp
        · exact ih _ (blockNext_lt m p) hs x hx
    exact key _ head hhead h.seg
  have hsub : (0 :: L.map Block.addr).toFinset ⊆ Finset.range (2 ^ 64) := by
    intro x hx
    rw [List.mem_toFinset, List.mem_cons] at hx
    rw [Finset.mem_range]
    rcases hx with rfl | hx
    · exact Nat.two_pow_pos 64
    · exact hlt x hx
  have hnd : (0 :: L.map Block.addr).Nodup :=
    List.nodup_cons.mpr ⟨fun h0 => h.seg.ne_zero h0 rfl, h.seg.nodup⟩
  have hcard := Finset.card_le_card hsub
  rw [List.toFinset_card_of_nodup hnd, Finset.card_range, List.length_cons, List.length_map] at hcard
  rw [addresses]
  exact hcard

end BlockList

/-! ### The search -/

/-- The search finds the first block that fits. -/
theorem findBlock_eq {head size steps : ℕ} {L : List Block} (h : BlockList m head L)
    (hsteps : L.length < steps) :
    findBlock m size steps head =
      some (((L.find? fun b => decide (b.Fits size)).map Block.addr).getD 0) := by
  induction L generalizing head steps with
  | nil =>
    obtain ⟨steps, rfl⟩ := Nat.exists_eq_add_of_lt hsteps
    simp [findBlock, show head = 0 from h.seg]
  | cons b L ih =>
    obtain ⟨k, rfl⟩ : ∃ k, steps = k + 1 := ⟨steps - 1, by simp at hsteps; omega⟩
    obtain ⟨rfl, hne, hseg⟩ := h.seg
    obtain ⟨hsize, hused⟩ := h.holds b List.mem_cons_self
    have htail : BlockList m (blockNext m b.addr) L :=
      ⟨hseg, fun c hc => h.holds c (List.mem_cons_of_mem b hc)⟩
    rw [findBlock, if_neg hne, hsize, hused, List.find?_cons]
    by_cases hfit : b.Fits size
    · obtain ⟨hu, hs⟩ := hfit
      simp [Block.Fits, hu, hs]
    · have hfalse : (!b.used && decide (size ≤ b.size)) = false := by
        rw [Bool.eq_false_iff]
        intro hc
        simp only [Bool.and_eq_true, Bool.not_eq_true', decide_eq_true_eq] at hc
        exact hfit hc
      simp only [hfalse, Bool.false_eq_true, if_false, hfit, decide_false]
      exact ih htail (by simp at hsteps; omega)

end PrismaticOS.Kernel
