import Mathlib.Data.Nat.Bitwise
import PrismaticOS.Library.PartialMaps
import PrismaticOS.Kernel.Paging

/-!
# Who owns the page tables

Where `kmalloc` gives a page of its own to every page table, each table belongs to one
address space and has one level, and its entries lead to tables of the same address space
one level down. The exception is entry 0 of the fourth level, which `mm_create_space`
copies from the kernel: the table it leads to is in all address spaces.

## What is proved

* `ensureTable_owned`, `mmMapPage_owned`, `mmUnmapPage_owned` — operations on pages outside
  entry 0 keep the owners, and write to tables of their own address space only.
* `translate_kept` — if the tables of an address space are not written, addresses from the
  start of the heap to the start of the stack are what they were there.
-/

namespace PrismaticOS.Kernel

open PrismaticOS.Library

/-- `kmalloc` gives every page table a page of its own. -/
structure PageTables (kmalloc : PageAllocator) : Prop where
  /-- A page table starts at a page. -/
  aligned : ∀ n, kmalloc n pageSize % pageSize = 0
  /-- No two are the same. -/
  apart : ∀ m n, kmalloc m pageSize = kmalloc n pageSize → m = n

/-- An allocator that gives every page table a page of its own. -/
def pageAllocator : PageAllocator := fun n _ => 0x400000 + 0x1000 * n

theorem pageAllocator_tables : PageTables pageAllocator := by
  constructor
  · intro n
    simp only [pageAllocator, pageSize]
    omega
  · intro m n h
    simp only [pageAllocator] at h
    omega

/-- The table of the third level that the kernel made, for entry 0 of the fourth. -/
def kernelPdpt (kmalloc : PageAllocator) : ℕ := kmalloc 0 pageSize

/-- The table of the fourth level of an address space that is there. -/
def pml4Of (s : Mm) (a : ℕ) : Option ℕ := (s.spaces a).map MemorySpace.pml4

/-- `own` tells to which address space a table belongs, and its level. -/
structure Owned (kmalloc : PageAllocator) (s : Mm) (own : ℕ → Option (ℕ × ℕ)) : Prop where
  /-- The tables were made. -/
  made : ∀ t x, own t = some x → ∃ n < s.allocs, t = kmalloc n pageSize
  /-- The fourth level. -/
  space : ∀ a p, pml4Of s a = some p → own p = some (a, 4)
  /-- Entry 0 of the fourth level is the kernel's. -/
  slot : ∀ t a, own t = some (a, 4) → entry s.mem t 0 = s.kernelPml4 0
  /-- The other entries lead one level down. -/
  down : ∀ t a l i, own t = some (a, l + 1) → 1 ≤ l → i < 512 → (l = 3 → i ≠ 0) →
    present (entry s.mem t i) = true → own (tableOf (entry s.mem t i)) = some (a, l)
  /-- The kernel's table was made. -/
  kernelMade : 0 < s.allocs
  /-- It belongs to nobody. -/
  kernelOwn : own (kernelPdpt kmalloc) = none
  /-- The kernel's entry 0 leads to it. -/
  kernelSlot : tableOf (s.kernelPml4 0) = kernelPdpt kmalloc
  /-- Nothing is mapped there from 4 GB on. -/
  kernelFree : ∀ i, 4 ≤ i → i < 512 → present (entry s.mem (kernelPdpt kmalloc) i) = false
  /-- The kernel has no other entries. -/
  kernelRest : ∀ i, i ≠ 0 → s.kernelPml4 i = 0

/-! ### Entries -/

variable {kmalloc : PageAllocator} {s s' : Mm} {own own' : ℕ → Option (ℕ × ℕ)}
  {a b t u i j l pml4 virtAddr : ℕ} {mem : ℕ → ℕ} {f : ℕ → ℕ}

theorem pml4Of_some {space : MemorySpace} (ha : s.spaces a = some space) :
    pml4Of s a = some space.pml4 := by rw [pml4Of, ha, Option.map_some]

theorem present_zero : present 0 = false := rfl

/-- The flags of an entry do not see the address. -/
theorem and_flags {f g : ℕ} (n : ℕ) (hf : f < 2 ^ 12) (hg : g < 2 ^ 12) :
    (2 ^ 12 * n + f) &&& g = f &&& g := by
  have hlt : (2 ^ 12 * n + f) &&& g < 2 ^ 12 := Nat.and_lt_two_pow _ hg
  have hmod := Nat.and_mod_two_pow (a := 2 ^ 12 * n + f) (b := g) (n := 12)
  rw [Nat.mod_eq_of_lt hlt, Nat.mod_eq_of_lt hg, Nat.mul_add_mod, Nat.mod_eq_of_lt hf] at hmod
  exact hmod

theorem present_flags {f : ℕ} (n : ℕ) (hf : f < 2 ^ 12) : present (2 ^ 12 * n + f) = present f := by
  rw [present, and_flags n hf (by decide), present]

/-- What `mm_map_page` writes for a new table. -/
theorem newEntry_eq {p : ℕ} (h : p % 4096 = 0) :
    p ||| ptePresent ||| pteWrite ||| pteUser = p + 7 := by
  have hp : p = 2 ^ 12 * (p / 4096) := by omega
  rw [Nat.or_assoc, Nat.or_assoc, hp,
    show ptePresent ||| (pteWrite ||| pteUser) = 7 by decide,
    ← Nat.two_pow_add_eq_or_of_lt (by decide)]

/-- What `init_page_tables` writes for a table. -/
theorem tableEntry_eq (h : t % pageSize = 0) :
    t ||| ptePresent ||| pteWrite = 2 ^ 12 * (t / 2 ^ 12) + 3 := by
  have ht : t = 2 ^ 12 * (t / 2 ^ 12) := by
    rw [pageSize] at h
    omega
  rw [Nat.or_assoc, show ptePresent ||| pteWrite = 3 by decide,
    Nat.two_pow_add_eq_or_of_lt (by decide), ← ht]

/-- It leads to the table. -/
theorem tableOf_kernelEntry (h : t % pageSize = 0) : tableOf (t ||| ptePresent ||| pteWrite) = t := by
  rw [tableEntry_eq h, tableOf]
  rw [pageSize] at h
  omega

theorem tableOf_newEntry {p : ℕ} (h : p % 4096 = 0) :
    tableOf (p ||| ptePresent ||| pteWrite ||| pteUser) = p := by
  rw [newEntry_eq h, tableOf]
  omega

/-- Tables of pages of their own have no word in common. -/
theorem word_ne (ht : t % pageSize = 0) (hu : u % pageSize = 0) (hi : i < 512) (hj : j < 512)
    (h : t ≠ u ∨ i ≠ j) : t + 8 * i ≠ u + 8 * j := by
  simp only [pageSize] at ht hu
  omega

theorem entry_fill_self (hi : i < 512) : entry (fillTable mem t f) t i = f i := by
  unfold entry fillTable
  have hcond : t ≤ t + 8 * i ∧ t + 8 * i < t + pageSize ∧ (t + 8 * i - t) % 8 = 0 := by
    simp only [pageSize]
    omega
  rw [if_pos hcond, Nat.add_sub_cancel_left, Nat.mul_div_cancel_left i (by decide)]

theorem entry_fill_of_ne (ht : t % pageSize = 0) (hu : u % pageSize = 0) (hi : i < 512)
    (h : u ≠ t) : entry (fillTable mem t f) u i = entry mem u i := by
  unfold entry fillTable
  rw [if_neg]
  simp only [pageSize] at *
  omega

theorem addSpace_mem (s : Mm) (p : ℕ) : (addSpace s p).mem =
    fillTable s.mem p fun i => if i < 256 then s.kernelPml4 i else 0 := rfl

theorem entry_addSpace_self (p : ℕ) {i : ℕ} (hi : i < 512) :
    entry (addSpace s p).mem p i = if i < 256 then s.kernelPml4 i else 0 := by
  rw [addSpace_mem]
  exact entry_fill_self hi

theorem entry_addSpace_of_ne {p u i : ℕ} (hp : p % pageSize = 0) (hu : u % pageSize = 0)
    (hi : i < 512) (h : u ≠ p) : entry (addSpace s p).mem u i = entry s.mem u i := by
  rw [addSpace_mem]
  exact entry_fill_of_ne hp hu hi h

/-! ### What a call writes -/

/-- Tables that do not belong to the address space are as they were. -/
structure Kept (kmalloc : PageAllocator) (a : ℕ) (own own' : ℕ → Option (ℕ × ℕ)) (s s' : Mm) :
    Prop where
  /-- The owners. -/
  owners : ∀ t x, own t = some x → own' t = some x
  /-- The words. -/
  words : ∀ t i, i < 512 → (∀ l, own t ≠ some (a, l)) → (own t ≠ none ∨ t = kernelPdpt kmalloc) →
    entry s'.mem t i = entry s.mem t i
  /-- The address spaces. -/
  pml4 : ∀ b, pml4Of s' b = pml4Of s b

theorem Kept.refl (s : Mm) : Kept kmalloc a own own s s :=
  ⟨fun _ _ => id, fun _ _ _ _ _ => rfl, fun _ => rfl⟩

theorem Kept.trans {own₁ own₂ own₃ : ℕ → Option (ℕ × ℕ)} {s₁ s₂ s₃ : Mm}
    (h₂ : Owned kmalloc s₂ own₂) (h : Kept kmalloc a own₁ own₂ s₁ s₂)
    (h' : Kept kmalloc a own₂ own₃ s₂ s₃) : Kept kmalloc a own₁ own₃ s₁ s₃ := by
  refine ⟨fun t x ht => h'.owners t x (h.owners t x ht), fun t i hi ha ht => ?_,
    fun b => (h'.pml4 b).trans (h.pml4 b)⟩
  refine (h'.words t i hi ?_ ?_).trans (h.words t i hi ha ht)
  · rcases ht with ht | rfl
    · obtain ⟨x, hx⟩ := Option.ne_none_iff_exists'.mp ht
      rw [h.owners t x hx, ← hx]
      exact ha
    · rw [h₂.kernelOwn]
      exact fun _ => nofun
  · rcases ht with ht | rfl
    · obtain ⟨x, hx⟩ := Option.ne_none_iff_exists'.mp ht
      rw [h.owners t x hx]
      exact .inl nofun
    · exact .inr rfl

/-- The tables start at pages. -/
theorem Owned.aligned (h : Owned kmalloc s own) (hk : PageTables kmalloc) {x : ℕ × ℕ}
    (ht : own t = some x) : t % pageSize = 0 := by
  obtain ⟨n, -, rfl⟩ := h.made t x ht
  exact hk.aligned n

/-- A table to be made belongs to nobody, and is not the kernel's. -/
theorem Owned.fresh (h : Owned kmalloc s own) (hk : PageTables kmalloc) {n : ℕ}
    (hn : s.allocs ≤ n) :
    own (kmalloc n pageSize) = none ∧ kernelPdpt kmalloc ≠ kmalloc n pageSize := by
  constructor
  · by_contra hne
    obtain ⟨x, hx⟩ := Option.ne_none_iff_exists'.mp hne
    obtain ⟨m, hm, heq⟩ := h.made _ x hx
    have := hk.apart _ _ heq
    omega
  · intro heq
    have := hk.apart _ _ heq
    have := h.kernelMade
    omega

/-- What does not change the tables keeps the owners. -/
theorem Owned.same (h : Owned kmalloc s own) (hmem : s'.mem = s.mem)
    (hkernel : s'.kernelPml4 = s.kernelPml4) (hallocs : s.allocs ≤ s'.allocs)
    (hpml4 : ∀ a p, pml4Of s' a = some p → pml4Of s a = some p) : Owned kmalloc s' own := by
  refine ⟨fun t x ht => ?_, fun a p hp => h.space a p (hpml4 a p hp), ?_, ?_,
    h.kernelMade.trans_le hallocs, h.kernelOwn, ?_, ?_, ?_⟩
  · obtain ⟨n, hn, hk⟩ := h.made t x ht
    exact ⟨n, hn.trans_le hallocs, hk⟩
  · rw [hmem, hkernel]
    exact h.slot
  · rw [hmem]
    exact h.down
  · rw [hkernel]
    exact h.kernelSlot
  · rw [hmem]
    exact h.kernelFree
  · rw [hkernel]
    exact h.kernelRest

/-! ### One level -/

/-- The state after a table was made for an entry. -/
def withTable (kmalloc : PageAllocator) (s : Mm) (table i : ℕ) : Mm :=
  ({ s.tick with mem := fillTable s.mem (kmalloc s.allocs pageSize) fun _ => 0 } : Mm).store
    (table + 8 * i) (kmalloc s.allocs pageSize ||| ptePresent ||| pteWrite ||| pteUser)

/-- An entry is there, or is made. -/
theorem ensureTable_cases (kmalloc : PageAllocator) (s : Mm) (table i : ℕ) :
    (present (entry s.mem table i) = true ∧
        ensureTable kmalloc s table i = (s, tableOf (entry s.mem table i))) ∨
      (present (entry s.mem table i) = false ∧
        ensureTable kmalloc s table i =
          (withTable kmalloc s table i, tableOf (entry (withTable kmalloc s table i).mem table i))) := by
  unfold ensureTable
  cases hpresent : present (entry s.mem table i) with
  | true => exact .inl ⟨rfl, if_pos rfl⟩
  | false => exact .inr ⟨rfl, rfl⟩

/-- The words of the tables after one was made. -/
theorem entry_withTable (hp : kmalloc s.allocs pageSize % pageSize = 0) (ht : t % pageSize = 0)
    (hi : i < 512) (hu : u % pageSize = 0) (hj : j < 512) :
    entry (withTable kmalloc s t i).mem u j =
      if u = t ∧ j = i then kmalloc s.allocs pageSize ||| ptePresent ||| pteWrite ||| pteUser
      else if u = kmalloc s.allocs pageSize then 0 else entry s.mem u j := by
  by_cases hself : u = t ∧ j = i
  · rw [if_pos hself, hself.1, hself.2]
    exact Mm.store_self ..
  rw [if_neg hself]
  refine (Mm.store_of_ne _ _ (word_ne hu ht hj hi (by tauto))).trans ?_
  show entry (fillTable s.mem (kmalloc s.allocs pageSize) fun _ => 0) u j = _
  by_cases hnew : u = kmalloc s.allocs pageSize
  · rw [if_pos hnew, hnew]
    exact entry_fill_self hj
  · rw [if_neg hnew]
    exact entry_fill_of_ne hp hu hj hnew

/-- Making a table for an entry of the address space keeps the owners, with one more. -/
theorem withTable_owned (hk : PageTables kmalloc) (h : Owned kmalloc s own)
    (ht : own t = some (a, l + 1)) (hl : l ≤ 3) (hi : i < 512) (hslot : l = 3 → i ≠ 0) :
    Owned kmalloc (withTable kmalloc s t i)
        (Function.update own (kmalloc s.allocs pageSize) (some (a, l))) ∧
      Kept kmalloc a own (Function.update own (kmalloc s.allocs pageSize) (some (a, l))) s
        (withTable kmalloc s t i) := by
  obtain ⟨p, hp⟩ : ∃ p, kmalloc s.allocs pageSize = p := ⟨_, rfl⟩
  obtain ⟨hfresh, hkernel⟩ := h.fresh hk le_rfl
  have hpage : p % pageSize = 0 := hp ▸ hk.aligned s.allocs
  have htpage := h.aligned hk ht
  have hkpage : kernelPdpt kmalloc % pageSize = 0 := hk.aligned 0
  have hentry : ∀ u j, u % pageSize = 0 → j < 512 → entry (withTable kmalloc s t i).mem u j =
      if u = t ∧ j = i then p ||| ptePresent ||| pteWrite ||| pteUser
      else if u = p then 0 else entry s.mem u j :=
    fun u j hu hj => hp ▸ entry_withTable (hk.aligned _) htpage hi hu hj
  rw [hp] at hfresh hkernel ⊢
  have htp : t ≠ p := ne_of_fresh hfresh ht
  have htkernel : kernelPdpt kmalloc ≠ t := (ne_of_fresh h.kernelOwn ht).symm
  have hkeep : ∀ u x, own u = some x → Function.update own p (some (a, l)) u = some x :=
    fun _ _ => update_fresh hfresh
  refine ⟨⟨fun u x hu => ?_, fun b q hq => hkeep q _ (h.space b q hq), fun u b hu => ?_,
    fun u b m j hu hm hj hslot' hpresent => ?_, Nat.lt_succ_of_lt h.kernelMade, ?_, h.kernelSlot,
    fun j hj hj' => ?_, h.kernelRest⟩, ⟨hkeep, fun u j hj hother hu => ?_, fun _ => rfl⟩⟩
  · rcases update_some_cases hu with ⟨rfl, -⟩ | ⟨-, hu⟩
    · exact ⟨s.allocs, Nat.lt_succ_self _, hp.symm⟩
    · obtain ⟨n, hn, hu⟩ := h.made u x hu
      exact ⟨n, Nat.lt_succ_of_lt hn, hu⟩
  · rcases update_some_cases hu with ⟨-, heq⟩ | ⟨hup, hu⟩
    · have := congrArg Prod.snd heq
      dsimp only at this
      omega
    · rw [hentry u 0 (h.aligned hk hu) (by decide), if_neg, if_neg hup]
      · exact h.slot u b hu
      · -- entry 0 of the fourth level is not made
        rintro ⟨rfl, rfl⟩
        have heq := congrArg Prod.snd (Option.some.inj (ht.symm.trans hu))
        dsimp only at heq
        exact hslot (by omega) rfl
  · rcases update_some_cases hu with ⟨rfl, -⟩ | ⟨hup, hu⟩
    · rw [hentry u j hpage hj, if_neg fun hc => htp hc.1.symm, if_pos rfl] at hpresent
      rw [present_zero] at hpresent
      cases hpresent
    · rw [hentry u j (h.aligned hk hu) hj] at hpresent ⊢
      by_cases hself : u = t ∧ j = i
      · rw [if_pos hself, tableOf_newEntry hpage, Function.update_self]
        obtain ⟨rfl, rfl⟩ := hself
        have heq := Option.some.inj (ht.symm.trans hu)
        simp only [Prod.mk.injEq] at heq
        rw [heq.1, show m = l by omega]
      · rw [if_neg hself, if_neg hup] at hpresent ⊢
        exact hkeep _ _ (h.down u b m j hu hm hj hslot' hpresent)
  · rw [Function.update_of_ne hkernel]
    exact h.kernelOwn
  · rw [hentry _ j hkpage hj', if_neg fun hc => htkernel hc.1, if_neg hkernel]
    exact h.kernelFree j hj hj'
  · have hupage : u % pageSize = 0 := by
      rcases hu with hu | rfl
      · obtain ⟨x, hx⟩ := Option.ne_none_iff_exists'.mp hu
        exact h.aligned hk hx
      · exact hkpage
    have hup : u ≠ p := by
      rintro rfl
      rcases hu with hu | hu
      · exact hu hfresh
      · exact hkernel hu.symm
    rw [hentry u j hupage hj, if_neg fun hc : u = t ∧ j = i => hother (l + 1) (hc.1 ▸ ht),
      if_neg hup]

/-- What a level of `mm_map_page` does: it finds or makes a table of the address space. -/
theorem ensureTable_owned (hk : PageTables kmalloc) (h : Owned kmalloc s own)
    (ht : own t = some (a, l + 1)) (hl₁ : 1 ≤ l) (hl : l ≤ 3) (hi : i < 512)
    (hslot : l = 3 → i ≠ 0) :
    ∃ own', Owned kmalloc (ensureTable kmalloc s t i).1 own' ∧
      own' (ensureTable kmalloc s t i).2 = some (a, l) ∧
        Kept kmalloc a own own' s (ensureTable kmalloc s t i).1 := by
  rcases ensureTable_cases kmalloc s t i with ⟨hpresent, heq⟩ | ⟨-, heq⟩
  · rw [heq]
    exact ⟨own, h, h.down t a l i ht hl₁ hi hslot hpresent, .refl s⟩
  · obtain ⟨howned, hkept⟩ := withTable_owned hk h ht hl hi hslot
    rw [heq]
    refine ⟨_, howned, ?_, hkept⟩
    rw [entry_withTable (hk.aligned _) (h.aligned hk ht) hi (h.aligned hk ht) hi, if_pos ⟨rfl, rfl⟩,
      tableOf_newEntry (hk.aligned _), Function.update_self]

/-- Writing to a table of the first level. -/
theorem storePage_owned (hk : PageTables kmalloc) (h : Owned kmalloc s own)
    (ht : own t = some (a, 1)) (hi : i < 512) (v : ℕ) :
    Owned kmalloc (s.store (t + 8 * i) v) own ∧
      Kept kmalloc a own own s (s.store (t + 8 * i) v) := by
  have htpage := h.aligned hk ht
  -- the words of other tables
  have hentry : ∀ u j, u % pageSize = 0 → j < 512 → u ≠ t →
      entry (s.store (t + 8 * i) v).mem u j = entry s.mem u j :=
    fun u j hu hj hut => Mm.store_of_ne _ _ (word_ne hu htpage hj hi (.inl hut))
  have hupper : ∀ u b m, own u = some (b, m + 2) → u ≠ t := by
    rintro u b m hu rfl
    have heq := congrArg Prod.snd (Option.some.inj (ht.symm.trans hu))
    dsimp only at heq
    omega
  have hkernel : kernelPdpt kmalloc ≠ t := by
    rintro rfl
    rw [h.kernelOwn] at ht
    cases ht
  refine ⟨⟨h.made, h.space, fun u b hu => ?_, fun u b m j hu hm hj hslot hpresent => ?_,
    h.kernelMade, h.kernelOwn, h.kernelSlot, fun j hj hj' => ?_, h.kernelRest⟩,
    ⟨fun _ _ => id, fun u j hj hother hu => ?_, fun _ => rfl⟩⟩
  · rw [hentry u 0 (h.aligned hk hu) (by decide) (hupper u b 2 hu)]
    exact h.slot u b hu
  · obtain ⟨m, rfl⟩ := Nat.exists_eq_add_of_le' hm
    rw [hentry u j (h.aligned hk hu) hj (hupper u b m hu)] at hpresent ⊢
    exact h.down u b (m + 1) j hu hm hj hslot hpresent
  · rw [hentry (kernelPdpt kmalloc) j (hk.aligned 0) hj' hkernel]
    exact h.kernelFree j hj hj'
  · refine hentry u j ?_ hj ?_
    · rcases hu with hu | rfl
      · obtain ⟨x, hx⟩ := Option.ne_none_iff_exists'.mp hu
        exact h.aligned hk hx
      · exact hk.aligned 0
    · rintro rfl
      exact hother 1 ht

/-! ### Mapping and unmapping -/

theorem index_lt (virtAddr : ℕ) : pml4Index virtAddr < 512 ∧ pdptIndex virtAddr < 512 ∧
    pdIndex virtAddr < 512 ∧ ptIndex virtAddr < 512 :=
  ⟨Nat.mod_lt _ (by decide), Nat.mod_lt _ (by decide), Nat.mod_lt _ (by decide),
    Nat.mod_lt _ (by decide)⟩

/-- **Mapping a page** outside entry 0 writes to tables of the address space only. -/
theorem mmMapPage_owned (hk : PageTables kmalloc) (h : Owned kmalloc s own)
    (hp : own pml4 = some (a, 4)) (hslot : pml4Index virtAddr ≠ 0) (physAddr flags : ℕ) :
    ∃ own', Owned kmalloc (mmMapPage kmalloc s pml4 virtAddr physAddr flags) own' ∧
      Kept kmalloc a own own' s (mmMapPage kmalloc s pml4 virtAddr physAddr flags) := by
  obtain ⟨hi₄, hi₃, hi₂, hi₁⟩ := index_lt virtAddr
  obtain ⟨r₁, r₂, r₃, h₁, h₂, h₃, hmap⟩ := mmMapPage_eq kmalloc s pml4 virtAddr physAddr flags
  obtain ⟨own₁, howned₁, ht₁, hkept₁⟩ := ensureTable_owned hk h hp (by decide) le_rfl hi₄
    fun _ => hslot
  rw [← h₁] at howned₁ ht₁ hkept₁
  obtain ⟨own₂, howned₂, ht₂, hkept₂⟩ := ensureTable_owned hk howned₁ ht₁ (by decide) (by decide)
    hi₃ (by omega)
  rw [← h₂] at howned₂ ht₂ hkept₂
  obtain ⟨own₃, howned₃, ht₃, hkept₃⟩ := ensureTable_owned hk howned₂ ht₂ le_rfl (by decide) hi₂
    (by omega)
  rw [← h₃] at howned₃ ht₃ hkept₃
  obtain ⟨howned, hkept⟩ := storePage_owned hk howned₃ ht₃ hi₁ (pageEntry physAddr flags)
  rw [hmap]
  exact ⟨own₃, howned, (hkept₁.trans howned₁ (hkept₂.trans howned₂ (hkept₃.trans howned₃ hkept)))⟩

/-- An entry of a table of the address space leads to one. -/
theorem nextTable_owned (h : Owned kmalloc s own) (ht : own t = some (a, l + 1)) (hl : 1 ≤ l)
    (hi : i < 512) (hslot : l = 3 → i ≠ 0) (hnext : nextTable s.mem t i = some u) :
    own u = some (a, l) := by
  unfold nextTable at hnext
  split at hnext
  · rename_i hpresent
    exact Option.some.inj hnext ▸ h.down t a l i ht hl hi hslot hpresent
  · cases hnext

/-- The table of the first level for a page outside entry 0. -/
theorem findPt_owned (h : Owned kmalloc s own) (hp : own pml4 = some (a, 4))
    (hslot : pml4Index virtAddr ≠ 0) (hfound : findPt s.mem pml4 virtAddr = some t) :
    own t = some (a, 1) := by
  obtain ⟨hi₄, hi₃, hi₂, -⟩ := index_lt virtAddr
  obtain ⟨pdpt, hpdpt, hfound⟩ := Option.bind_eq_some_iff.mp hfound
  obtain ⟨pd, hpd, hpt⟩ := Option.bind_eq_some_iff.mp hfound
  have h₃ := nextTable_owned h hp (by decide) hi₄ (fun _ => hslot) hpdpt
  have h₂ := nextTable_owned h h₃ (by decide) hi₃ (by omega) hpd
  exact nextTable_owned h h₂ le_rfl hi₂ (by omega) hpt

/-- **Unmapping a page** outside entry 0 writes to tables of the address space only. -/
theorem mmUnmapPage_owned (hk : PageTables kmalloc) (h : Owned kmalloc s own)
    (hp : own pml4 = some (a, 4)) (hslot : pml4Index virtAddr ≠ 0) :
    Owned kmalloc (mmUnmapPage s pml4 virtAddr) own ∧
      Kept kmalloc a own own s (mmUnmapPage s pml4 virtAddr) := by
  rcases mmUnmapPage_cases s pml4 virtAddr with ⟨-, heq⟩ | ⟨pt, hfound, heq⟩
  · rw [heq]
    exact ⟨h, .refl s⟩
  · rw [heq]
    exact storePage_owned hk h (findPt_owned h hp hslot hfound) (index_lt virtAddr).2.2.2 0

/-! ### Walking -/

/-- **The tables of an address space decide what its addresses are**, from the start of the
heap to the start of the stack. -/
theorem translate_kept (h : Owned kmalloc s own) (hp : own pml4 = some (b, 4)) {mem' : ℕ → ℕ}
    (hmem : ∀ t i, i < 512 → (∃ l, own t = some (b, l)) ∨ t = kernelPdpt kmalloc →
      entry mem' t i = entry s.mem t i)
    (hlow : 0x100000000 ≤ virtAddr) (hhigh : virtAddr < 0x7FFFFF000000) :
    translate mem' pml4 virtAddr = translate s.mem pml4 virtAddr := by
  obtain ⟨hi₄, hi₃, hi₂, hi₁⟩ := index_lt virtAddr
  have hnext : ∀ t i, i < 512 → (∃ l, own t = some (b, l)) ∨ t = kernelPdpt kmalloc →
      nextTable mem' t i = nextTable s.mem t i := by
    intro t i hi ht
    unfold nextTable
    rw [hmem t i hi ht]
  unfold translate
  congr 1
  unfold walkEntries
  rw [hnext pml4 _ hi₄ (.inl ⟨4, hp⟩)]
  cases hpdpt : nextTable s.mem pml4 (pml4Index virtAddr) with
  | none => rfl
  | some pdpt =>
    rw [Option.bind_some, Option.bind_some]
    by_cases hslot : pml4Index virtAddr = 0
    · -- nothing is mapped through the kernel's table
      have hkernel : pdpt = kernelPdpt kmalloc := by
        rw [hslot] at hpdpt
        unfold nextTable at hpdpt
        split at hpdpt
        · rw [← Option.some.inj hpdpt, h.slot pml4 b hp, h.kernelSlot]
        · cases hpdpt
      have hindex : 4 ≤ pdptIndex virtAddr := by
        unfold pml4Index at hslot
        unfold pdptIndex
        omega
      have hnone : nextTable s.mem pdpt (pdptIndex virtAddr) = none := by
        unfold nextTable
        rw [hkernel, h.kernelFree _ hindex hi₃]
        rfl
      rw [hnext pdpt _ hi₃ (.inr hkernel), hnone]
      rfl
    have h₃ := nextTable_owned h hp (by decide) hi₄ (fun _ => hslot) hpdpt
    rw [hnext pdpt _ hi₃ (.inl ⟨3, h₃⟩)]
    cases hpd : nextTable s.mem pdpt (pdptIndex virtAddr) with
    | none => rfl
    | some pd =>
      have h₂ := nextTable_owned h h₃ (by decide) hi₃ (by omega) hpd
      rw [Option.bind_some, Option.bind_some, hnext pd _ hi₂ (.inl ⟨2, h₂⟩)]
      cases hpt : nextTable s.mem pd (pdIndex virtAddr) with
      | none => rfl
      | some pt =>
        have h₁ := nextTable_owned h h₂ le_rfl hi₂ (by omega) hpt
        rw [Option.bind_some, Option.bind_some, hmem pt _ hi₁ (.inl ⟨1, h₁⟩),
          hmem pml4 _ hi₄ (.inl ⟨4, hp⟩), hmem pdpt _ hi₃ (.inl ⟨3, h₃⟩),
          hmem pd _ hi₂ (.inl ⟨2, h₂⟩)]

end PrismaticOS.Kernel
