import PrismaticOS.Kernel.PageTables

/-!
# The identity map that the kernel starts with

`init_page_tables` makes one table of the third level and four of the second, and no
table of the first: the entries of the second level are meant to map pages themselves.
The processor takes an entry of the second level for a page of 2 MB if its bit 7 is set;
the flag that is set is `PTE_GLOBAL`, bit 8, and the addresses are 4 KB apart. So each
entry names a table of the first level, in physical memory below 8 MB, whatever is there.

## What is proved

* `entry_initPageTables` — the words of the tables after `init_page_tables`.
* `identity_iff` — which addresses below 2 GB the walk takes to themselves, whatever is
  in memory.
-/

namespace PrismaticOS.Kernel

open PrismaticOS.Library

/-! ### The walk of the processor -/

/-- The address in an entry, bits 12 to 51. -/
def frameAddr (e : ℕ) : ℕ := e / 2 ^ 12 % 2 ^ 40 * 2 ^ 12

/-- Bit 7 of an entry, which the processor reads as the page size. -/
def pageSizeBit : ℕ := 0x80

/-- The walk from the table of the fourth level at `cr3`, through the words of physical
memory: the physical address of `virtAddr`, if there is one. -/
def walkAddr (words : ℕ → ℕ) (cr3 virtAddr : ℕ) : Option ℕ :=
  let e₄ := entry words cr3 (pml4Index virtAddr)
  if present e₄ then
    let e₃ := entry words (frameAddr e₄) (pdptIndex virtAddr)
    if present e₃ then
      let e₂ := entry words (frameAddr e₃) (pdIndex virtAddr)
      if present e₂ then
        if e₂ &&& pageSizeBit ≠ 0 then
          some (frameAddr e₂ / 2 ^ 21 * 2 ^ 21 + virtAddr % 2 ^ 21)
        else
          let e₁ := entry words (frameAddr e₂) (ptIndex virtAddr)
          if present e₁ then some (frameAddr e₁ + virtAddr % 2 ^ 12) else none
      else none
    else none
  else none

/-- The words of physical memory, with `kernel_pml4` at its address. -/
def physWords (s : Mm) (pml4Addr : ℕ) : ℕ → ℕ := fun a =>
  if pml4Addr ≤ a ∧ a < pml4Addr + pageSize then s.kernelPml4 ((a - pml4Addr) / 8) else s.mem a

/-- The table of the second level for the `j`-th GB. -/
def bootPd (kmalloc : PageAllocator) (j : ℕ) : ℕ := kmalloc (j + 1) pageSize

/-- The address of one of the tables: `kernel_pml4`, or one of those that
`init_page_tables` makes. -/
def bootTable (kmalloc : PageAllocator) (pml4Addr : ℕ) : ℕ → ℕ
  | 0 => pml4Addr
  | n + 1 => kmalloc n pageSize

/-- The five allocations succeed, and give physical pages of their own. -/
structure BootTables (kmalloc : PageAllocator) (pml4Addr : ℕ) : Prop where
  /-- A table starts at a page. -/
  aligned : ∀ n < 6, bootTable kmalloc pml4Addr n % pageSize = 0
  /-- None is at `NULL`. -/
  nonzero : ∀ n < 6, bootTable kmalloc pml4Addr n ≠ 0
  /-- Physical addresses have 52 bits. -/
  phys : ∀ n < 6, bootTable kmalloc pml4Addr n < 2 ^ 52
  /-- No two are the same. -/
  apart : ∀ m < 6, ∀ n < 6, bootTable kmalloc pml4Addr m = bootTable kmalloc pml4Addr n → m = n

/-- **The identity map** at an address: whatever is in memory before, the walk of
`kernel_pml4` takes the address to itself. -/
def IdentityAt (kmalloc : PageAllocator) (pml4Addr virtAddr : ℕ) : Prop :=
  ∀ mem, walkAddr (physWords (initPageTables kmalloc (mmEmpty mem)) pml4Addr) pml4Addr virtAddr =
    some virtAddr

/-- The page that the entry of the second level names as a table of the first level is one
of the five tables or `kernel_pml4`, and the entry there is right. -/
def NamesTable (kmalloc : PageAllocator) (pml4Addr virtAddr : ℕ) : Prop :=
  let page := virtAddr / 2 ^ 21 * 2 ^ 12
  let i := ptIndex virtAddr
  (virtAddr / 2 ^ 21 < 4 ∧ bootPd kmalloc (virtAddr / 2 ^ 21) = page) ∨
    (kernelPdpt kmalloc = page ∧ i < 4 ∧ bootPd kmalloc i = virtAddr / 2 ^ 12 * 2 ^ 12) ∨
      pml4Addr = page ∧ i = 0 ∧ kernelPdpt kmalloc = virtAddr / 2 ^ 12 * 2 ^ 12

/-! ### Entries -/

variable {kmalloc : PageAllocator} {pml4Addr virtAddr t u i j n f g : ℕ} {s : Mm} {mem : ℕ → ℕ}

theorem frameAddr_flags (hn : n < 2 ^ 40) (hf : f < 2 ^ 12) : frameAddr (2 ^ 12 * n + f) = 2 ^ 12 * n := by
  rw [frameAddr, Nat.mul_add_div (by decide), Nat.div_eq_of_lt hf, Nat.add_zero, Nat.mod_eq_of_lt hn,
    Nat.mul_comm]

/-- An entry of the second level. -/
theorem pdEntry_eq (j i : ℕ) : (j * 512 * pageSize + i * pageSize) ||| ptePresent ||| pteWrite |||
    pteGlobal = 2 ^ 12 * (j * 512 + i) + 0x103 := by
  have haddr : j * 512 * pageSize + i * pageSize = 2 ^ 12 * (j * 512 + i) := by
    rw [pageSize]
    omega
  rw [Nat.or_assoc, Nat.or_assoc, show ptePresent ||| (pteWrite ||| pteGlobal) = 0x103 by decide,
    haddr, ← Nat.two_pow_add_eq_or_of_lt (by decide)]

/-- A table that is at a physical page is what its entry leads to. -/
theorem frameAddr_table (h : t % pageSize = 0) (hlt : t < 2 ^ 52) :
    present (t ||| ptePresent ||| pteWrite) = true ∧
      frameAddr (t ||| ptePresent ||| pteWrite) = t := by
  rw [pageSize] at h
  rw [tableEntry_eq h, present_flags _ (by decide), frameAddr_flags (by omega) (by decide)]
  exact ⟨rfl, by omega⟩

/-! ### The tables -/

/-- The words after a turn of the loop. -/
theorem entry_initPd (hpd : kmalloc s.allocs pageSize % pageSize = 0) (ht : t % pageSize = 0)
    (hu : u % pageSize = 0) (hi : i < 512) (hj : j < 512) :
    entry (initPd kmalloc t s j).mem u i =
      if u = kmalloc s.allocs pageSize then 2 ^ 12 * (j * 512 + i) + 0x103
      else if u = t ∧ i = j then kmalloc s.allocs pageSize ||| ptePresent ||| pteWrite
      else entry s.mem u i := by
  unfold initPd newTable
  simp only
  by_cases hself : u = kmalloc s.allocs pageSize
  · rw [if_pos hself, hself, entry_fill_self hi, pdEntry_eq]
  rw [if_neg hself, entry_fill_of_ne hpd hu hi hself]
  by_cases hslot : u = t ∧ i = j
  · rw [if_pos hslot, hslot.1, hslot.2]
    exact Mm.store_self ..
  · rw [if_neg hslot]
    refine (Mm.store_of_ne _ _ (word_ne hu ht hi hj (by tauto))).trans ?_
    show entry (fillTable s.mem (kmalloc s.allocs pageSize) fun _ => 0) u i = _
    exact entry_fill_of_ne hpd hu hi hself

/-- The tables when the loop has made `n` of them. -/
structure BootInv (kmalloc : PageAllocator) (mem : ℕ → ℕ) (n : ℕ) (s : Mm) : Prop where
  /-- The tables were taken from `kmalloc`. -/
  allocs : s.allocs = n + 1
  /-- The fourth level. -/
  kernel : s.kernelPml4 =
    Function.update (fun _ => 0) 0 (kernelPdpt kmalloc ||| ptePresent ||| pteWrite)
  /-- The third level. -/
  pdpt : ∀ i < 512, entry s.mem (kernelPdpt kmalloc) i =
    if i < n then bootPd kmalloc i ||| ptePresent ||| pteWrite else 0
  /-- The second level. -/
  pd : ∀ j < n, ∀ i < 512, entry s.mem (bootPd kmalloc j) i = 2 ^ 12 * (j * 512 + i) + 0x103
  /-- The rest of memory. -/
  rest : ∀ u i, u % pageSize = 0 → i < 512 → u ≠ kernelPdpt kmalloc →
    (∀ j < n, u ≠ bootPd kmalloc j) → entry s.mem u i = entry mem u i

namespace BootTables

theorem pml4_aligned (h : BootTables kmalloc pml4Addr) : pml4Addr % pageSize = 0 :=
  h.aligned 0 (by decide)

theorem pdpt_aligned (h : BootTables kmalloc pml4Addr) : kernelPdpt kmalloc % pageSize = 0 :=
  h.aligned 1 (by decide)

theorem pd_aligned (h : BootTables kmalloc pml4Addr) (hj : j < 4) :
    bootPd kmalloc j % pageSize = 0 :=
  h.aligned (j + 2) (by omega)

theorem pdpt_ne_pd (h : BootTables kmalloc pml4Addr) (hj : j < 4) :
    kernelPdpt kmalloc ≠ bootPd kmalloc j := by
  intro he
  have := h.apart 1 (by decide) (j + 2) (by omega) he
  omega

theorem pd_inj (h : BootTables kmalloc pml4Addr) (hi : i < 4) (hj : j < 4)
    (he : bootPd kmalloc i = bootPd kmalloc j) : i = j := by
  have := h.apart (i + 2) (by omega) (j + 2) (by omega) he
  omega

theorem pml4_ne_pdpt (h : BootTables kmalloc pml4Addr) : pml4Addr ≠ kernelPdpt kmalloc := by
  intro he
  have := h.apart 0 (by decide) 1 (by decide) he
  omega

theorem pml4_ne_pd (h : BootTables kmalloc pml4Addr) (hj : j < 4) : pml4Addr ≠ bootPd kmalloc j := by
  intro he
  have := h.apart 0 (by decide) (j + 2) (by omega) he
  omega

end BootTables

/-- A turn of the loop. -/
theorem BootInv.step (hb : BootTables kmalloc pml4Addr) (h : BootInv kmalloc mem n s) (hn : n < 4) :
    BootInv kmalloc mem (n + 1) (initPd kmalloc (kernelPdpt kmalloc) s n) := by
  have hpd : kmalloc s.allocs pageSize = bootPd kmalloc n := by rw [h.allocs, bootPd]
  have hentry : ∀ u i, u % pageSize = 0 → i < 512 →
      entry (initPd kmalloc (kernelPdpt kmalloc) s n).mem u i =
        if u = bootPd kmalloc n then 2 ^ 12 * (n * 512 + i) + 0x103
        else if u = kernelPdpt kmalloc ∧ i = n then bootPd kmalloc n ||| ptePresent ||| pteWrite
        else entry s.mem u i := by
    intro u i hu hi
    rw [← hpd]
    exact entry_initPd (hpd ▸ hb.pd_aligned hn) hb.pdpt_aligned hu hi (by omega)
  refine ⟨congrArg (· + 1) h.allocs, h.kernel, fun i hi => ?_, fun j hj i hi => ?_,
    fun u i hu hi hpdpt hothers => ?_⟩
  · rw [hentry _ i hb.pdpt_aligned hi, if_neg (hb.pdpt_ne_pd hn)]
    by_cases hin : i = n
    · rw [if_pos ⟨rfl, hin⟩, hin, if_pos (Nat.lt_succ_self n)]
    · rw [if_neg fun hc => hin hc.2, h.pdpt i hi]
      exact if_congr (by omega) rfl rfl
  · have hj4 : j < 4 := by omega
    rw [hentry _ i (hb.pd_aligned hj4) hi]
    by_cases hjn : j = n
    · rw [hjn, if_pos rfl]
    · rw [if_neg fun he => hjn (hb.pd_inj hj4 hn he), if_neg fun hc => hb.pdpt_ne_pd hj4 hc.1.symm]
      exact h.pd j (by omega) i hi
  · rw [hentry u i hu hi, if_neg (hothers n (Nat.lt_succ_self n)), if_neg fun hc => hpdpt hc.1]
    exact h.rest u i hu hi hpdpt fun j hj => hothers j (Nat.lt_succ_of_lt hj)

/-- **The tables that `init_page_tables` makes.** -/
theorem entry_initPageTables (hb : BootTables kmalloc pml4Addr) (mem : ℕ → ℕ) :
    BootInv kmalloc mem 4 (initPageTables kmalloc (mmEmpty mem)) := by
  have hloop : ∀ n ≤ 4, ∀ s, BootInv kmalloc mem 0 s →
      BootInv kmalloc mem n ((List.range n).foldl (initPd kmalloc (kernelPdpt kmalloc)) s) := by
    intro n
    induction n with
    | zero => exact fun _ _ h => h
    | succ n ih =>
      intro hn s h
      rw [List.range_succ, List.foldl_append]
      exact (ih (by omega) s h).step hb (by omega)
  unfold initPageTables newTable
  dsimp only
  refine hloop 4 le_rfl _ ⟨rfl, rfl, fun i hi => ?_, fun j hj => absurd hj (Nat.not_lt_zero j),
    fun u i hu hi hne _ => ?_⟩
  · show entry (fillTable mem (kernelPdpt kmalloc) fun _ => 0) _ i = 0
    exact entry_fill_self hi
  · show entry (fillTable mem (kernelPdpt kmalloc) fun _ => 0) u i = _
    exact entry_fill_of_ne hb.pdpt_aligned hu hi hne

/-! ### The walk -/

/-- The words of `kernel_pml4` are not the words of other tables. -/
theorem entry_physWords (hp : pml4Addr % pageSize = 0) (hu : u % pageSize = 0) (hi : i < 512) :
    entry (physWords s pml4Addr) u i = if u = pml4Addr then s.kernelPml4 i else entry s.mem u i := by
  rw [pageSize] at hp hu
  unfold entry physWords
  by_cases hself : u = pml4Addr
  · rw [if_pos hself, hself, if_pos ⟨by omega, by rw [pageSize]; omega⟩, Nat.add_sub_cancel_left,
      Nat.mul_div_cancel_left i (by decide)]
  · rw [if_neg hself, if_neg]
    rw [pageSize]
    omega

/-- What an entry of the first level makes of an address. -/
def pageAddr (e virtAddr : ℕ) : Option ℕ :=
  if present e then some (frameAddr e + virtAddr % 2 ^ 12) else none

/-- **The walk goes on to a table of the first level**, at the page that the entry of the
second level names. -/
theorem walkAddr_eq (hb : BootTables kmalloc pml4Addr) (h : BootInv kmalloc mem 4 s)
    (hv : virtAddr < 2 ^ 31) : walkAddr (physWords s pml4Addr) pml4Addr virtAddr =
      pageAddr (entry (physWords s pml4Addr) (virtAddr / 2 ^ 21 * 2 ^ 12) (ptIndex virtAddr))
        virtAddr := by
  obtain ⟨-, hi₃, hi₂, -⟩ := index_lt virtAddr
  have hp : pml4Addr % pageSize = 0 := hb.pml4_aligned
  have h₄ : pml4Index virtAddr = 0 := by
    unfold pml4Index
    omega
  have h₃ : pdptIndex virtAddr < 4 := by
    unfold pdptIndex
    omega
  obtain ⟨hpres₄, hframe₄⟩ := frameAddr_table hb.pdpt_aligned (hb.phys 1 (by decide))
  obtain ⟨hpres₃, hframe₃⟩ := frameAddr_table (hb.pd_aligned h₃)
    (hb.phys (pdptIndex virtAddr + 2) (by omega))
  have hentry₄ : entry (physWords s pml4Addr) pml4Addr (pml4Index virtAddr) =
      (kernelPdpt kmalloc ||| ptePresent ||| pteWrite) := by
    rw [h₄, entry_physWords hp hp (by decide), if_pos rfl, h.kernel, Function.update_self]
  have hentry₃ : entry (physWords s pml4Addr) (kernelPdpt kmalloc) (pdptIndex virtAddr) =
      (bootPd kmalloc (pdptIndex virtAddr) ||| ptePresent ||| pteWrite) := by
    rw [entry_physWords hp hb.pdpt_aligned hi₃, if_neg hb.pml4_ne_pdpt.symm, h.pdpt _ hi₃, if_pos h₃]
  have hentry₂ : entry (physWords s pml4Addr) (bootPd kmalloc (pdptIndex virtAddr))
      (pdIndex virtAddr) = 2 ^ 12 * (pdptIndex virtAddr * 512 + pdIndex virtAddr) + 0x103 := by
    rw [entry_physWords hp (hb.pd_aligned h₃) hi₂, if_neg (hb.pml4_ne_pd h₃).symm, h.pd _ h₃ _ hi₂]
  have hpres₂ : present (2 ^ 12 * (pdptIndex virtAddr * 512 + pdIndex virtAddr) + 0x103) = true :=
    present_flags _ (by decide)
  have hframe₂ : frameAddr (2 ^ 12 * (pdptIndex virtAddr * 512 + pdIndex virtAddr) + 0x103) =
      virtAddr / 2 ^ 21 * 2 ^ 12 := by
    rw [frameAddr_flags (by omega) (by decide), pdptIndex, pdIndex]
    omega
  -- the flag that is set is not the page size
  have hsize : (2 ^ 12 * (pdptIndex virtAddr * 512 + pdIndex virtAddr) + 0x103) &&& pageSizeBit = 0 :=
    and_flags _ (by decide) (by decide)
  simp only [walkAddr, hentry₄, hpres₄, if_true, hframe₄, hentry₃, hpres₃, hframe₃, hentry₂, hpres₂,
    hsize, ne_eq, not_true_eq_false, if_false, hframe₂]
  rfl

/-- An entry for the `q`-th page takes an address to itself if the address is there. -/
theorem pageAddr_flags_iff {q : ℕ} (hq : q < 2 ^ 40) (hf : f < 2 ^ 12) (hp : present f = true) :
    pageAddr (2 ^ 12 * q + f) virtAddr = some virtAddr ↔ q = virtAddr / 2 ^ 12 := by
  rw [pageAddr, present_flags q hf, if_pos hp, frameAddr_flags hq hf, Option.some.injEq]
  omega

theorem pageAddr_table_iff (ht : t % pageSize = 0) (hlt : t < 2 ^ 52) :
    pageAddr (t ||| ptePresent ||| pteWrite) virtAddr = some virtAddr ↔
      t = virtAddr / 2 ^ 12 * 2 ^ 12 := by
  rw [pageSize] at ht
  rw [tableEntry_eq ht, pageAddr_flags_iff (by omega) (by decide) rfl]
  omega

theorem pageAddr_zero : pageAddr 0 virtAddr ≠ some virtAddr := nofun

/-- The identity map is about the word that the entry of the second level leads to. -/
theorem identityAt_iff (hb : BootTables kmalloc pml4Addr) (hv : virtAddr < 2 ^ 31) :
    IdentityAt kmalloc pml4Addr virtAddr ↔
      ∀ mem, pageAddr (entry (physWords (initPageTables kmalloc (mmEmpty mem)) pml4Addr)
        (virtAddr / 2 ^ 21 * 2 ^ 12) (ptIndex virtAddr)) virtAddr = some virtAddr :=
  forall_congr' fun mem => by rw [walkAddr_eq hb (entry_initPageTables hb mem) hv]

/-- The entry names a table of the second level. -/
theorem identityAt_pd (hb : BootTables kmalloc pml4Addr) (hv : virtAddr < 2 ^ 31) (hj : j < 4)
    (hpage : bootPd kmalloc j = virtAddr / 2 ^ 21 * 2 ^ 12) :
    IdentityAt kmalloc pml4Addr virtAddr ↔ j = virtAddr / 2 ^ 21 := by
  have hi := (index_lt virtAddr).2.2.2
  have hentry : ∀ mem, entry (physWords (initPageTables kmalloc (mmEmpty mem)) pml4Addr)
      (bootPd kmalloc j) (ptIndex virtAddr) = 2 ^ 12 * (j * 512 + ptIndex virtAddr) + 0x103 := by
    intro mem
    rw [entry_physWords hb.pml4_aligned (hb.pd_aligned hj) hi, if_neg (hb.pml4_ne_pd hj).symm,
      (entry_initPageTables hb mem).pd j hj _ hi]
  rw [identityAt_iff hb hv, ← hpage]
  simp only [hentry, forall_const]
  rw [pageAddr_flags_iff (by omega) (by decide) (by decide), ptIndex]
  omega

/-- The entry names the table of the third level. -/
theorem identityAt_pdpt (hb : BootTables kmalloc pml4Addr) (hv : virtAddr < 2 ^ 31)
    (hpage : kernelPdpt kmalloc = virtAddr / 2 ^ 21 * 2 ^ 12) :
    IdentityAt kmalloc pml4Addr virtAddr ↔
      ptIndex virtAddr < 4 ∧ bootPd kmalloc (ptIndex virtAddr) = virtAddr / 2 ^ 12 * 2 ^ 12 := by
  have hi := (index_lt virtAddr).2.2.2
  have hentry : ∀ mem, entry (physWords (initPageTables kmalloc (mmEmpty mem)) pml4Addr)
      (kernelPdpt kmalloc) (ptIndex virtAddr) = if ptIndex virtAddr < 4 then
        bootPd kmalloc (ptIndex virtAddr) ||| ptePresent ||| pteWrite else 0 := by
    intro mem
    rw [entry_physWords hb.pml4_aligned hb.pdpt_aligned hi, if_neg hb.pml4_ne_pdpt.symm,
      (entry_initPageTables hb mem).pdpt _ hi]
  rw [identityAt_iff hb hv, ← hpage]
  simp only [hentry, forall_const]
  by_cases hi4 : ptIndex virtAddr < 4
  · rw [if_pos hi4, pageAddr_table_iff (hb.pd_aligned hi4) (hb.phys (ptIndex virtAddr + 2) (by omega)),
      and_iff_right hi4]
  · rw [if_neg hi4]
    exact iff_of_false pageAddr_zero fun h => hi4 h.1

/-- The entry names `kernel_pml4`. -/
theorem identityAt_pml4 (hb : BootTables kmalloc pml4Addr) (hv : virtAddr < 2 ^ 31)
    (hpage : pml4Addr = virtAddr / 2 ^ 21 * 2 ^ 12) :
    IdentityAt kmalloc pml4Addr virtAddr ↔
      ptIndex virtAddr = 0 ∧ kernelPdpt kmalloc = virtAddr / 2 ^ 12 * 2 ^ 12 := by
  have hp : pml4Addr % pageSize = 0 := hb.pml4_aligned
  have hentry : ∀ mem, entry (physWords (initPageTables kmalloc (mmEmpty mem)) pml4Addr)
      pml4Addr (ptIndex virtAddr) = Function.update (fun _ => 0) 0
        (kernelPdpt kmalloc ||| ptePresent ||| pteWrite) (ptIndex virtAddr) := by
    intro mem
    rw [entry_physWords hp hp (index_lt virtAddr).2.2.2, if_pos rfl, (entry_initPageTables hb mem).kernel]
  rw [identityAt_iff hb hv, ← hpage]
  simp only [hentry, forall_const]
  by_cases hi0 : ptIndex virtAddr = 0
  · rw [hi0, Function.update_self, pageAddr_table_iff hb.pdpt_aligned (hb.phys 1 (by decide)),
      and_iff_right rfl]
  · rw [Function.update_of_ne hi0]
    exact iff_of_false pageAddr_zero fun h => hi0 h.1

/-- The entry names a page that is none of the tables: what is there is not determined. -/
theorem not_identityAt (hb : BootTables kmalloc pml4Addr) (hv : virtAddr < 2 ^ 31)
    (hpd : ∀ j < 4, bootPd kmalloc j ≠ virtAddr / 2 ^ 21 * 2 ^ 12)
    (hpdpt : kernelPdpt kmalloc ≠ virtAddr / 2 ^ 21 * 2 ^ 12)
    (hpml4 : pml4Addr ≠ virtAddr / 2 ^ 21 * 2 ^ 12) : ¬IdentityAt kmalloc pml4Addr virtAddr := by
  have hi := (index_lt virtAddr).2.2.2
  have hu : virtAddr / 2 ^ 21 * 2 ^ 12 % pageSize = 0 := Nat.mul_mod_left ..
  rw [identityAt_iff hb hv]
  intro h
  have hzero := h fun _ => 0
  rw [entry_physWords hb.pml4_aligned hu hi, if_neg hpml4.symm,
    (entry_initPageTables hb _).rest _ _ hu hi hpdpt.symm fun j hj => (hpd j hj).symm] at hzero
  exact pageAddr_zero hzero

/-- **Which addresses below 2 GB are mapped to themselves**, whatever is in memory. -/
theorem identity_iff (hb : BootTables kmalloc pml4Addr) (hv : virtAddr < 2 ^ 31) :
    IdentityAt kmalloc pml4Addr virtAddr ↔ NamesTable kmalloc pml4Addr virtAddr := by
  unfold NamesTable
  obtain ⟨page, hpage⟩ : ∃ page, virtAddr / 2 ^ 21 * 2 ^ 12 = page := ⟨_, rfl⟩
  simp only [hpage]
  by_cases hpd : ∃ j < 4, bootPd kmalloc j = page
  · obtain ⟨j, hj, hjp⟩ := hpd
    rw [identityAt_pd hb hv hj (hjp.trans hpage.symm)]
    constructor
    · rintro rfl
      exact .inl ⟨hj, hjp⟩
    · rintro (⟨hlt, he⟩ | ⟨he, -⟩ | ⟨he, -⟩)
      · exact hb.pd_inj hj hlt (hjp.trans he.symm)
      · exact absurd (he.trans hjp.symm) (hb.pdpt_ne_pd hj)
      · exact absurd (he.trans hjp.symm) (hb.pml4_ne_pd hj)
  have hpd' : ∀ j < 4, bootPd kmalloc j ≠ page := fun j hj he => hpd ⟨j, hj, he⟩
  rw [or_iff_right fun h => hpd' _ h.1 h.2]
  by_cases hpdpt : kernelPdpt kmalloc = page
  · rw [identityAt_pdpt hb hv (hpdpt.trans hpage.symm), or_iff_left, and_iff_right hpdpt]
    exact fun h => hb.pml4_ne_pdpt (h.1.trans hpdpt.symm)
  rw [or_iff_right fun h => hpdpt h.1]
  by_cases hpml4 : pml4Addr = page
  · rw [identityAt_pml4 hb hv (hpml4.trans hpage.symm), and_iff_right hpml4]
  · exact iff_of_false (not_identityAt hb hv (by rwa [hpage]) (by rwa [hpage]) (by rwa [hpage]))
      fun h => hpml4 h.1

/-- The table for the second GB at 4 KB: from 2 MB to 4 MB its entries are those of a table
of the first level. -/
theorem identity_low : IdentityAt (fun n _ => 0x1000 * ([4, 5, 1, 6, 7].getD n 0)) 0x8000
    0x234567 :=
  (identity_iff ⟨by decide, by decide, by decide, by decide⟩ (by decide)).mpr (.inl (by decide))

/-- Address 0 is not mapped to itself unless the words at physical address 0 happen to say so. -/
theorem zero_not_mapped : ¬ ∀ kmalloc pml4Addr virtAddr, BootTables kmalloc pml4Addr →
    virtAddr < 2 ^ 31 → IdentityAt kmalloc pml4Addr virtAddr := by
  intro h
  have hb : BootTables (fun n _ => 0x201000 + 0x1000 * n) 0x100000 :=
    ⟨by decide, by decide, by decide, by decide⟩
  have hid := h _ _ 0 hb (by decide)
  have hpd : ∀ j < 4, bootPd (fun n _ => 0x201000 + 0x1000 * n) j ≠ 0 / 2 ^ 21 * 2 ^ 12 :=
    fun j _ => Nat.ne_of_gt (Nat.add_pos_left (by decide) _)
  exact not_identityAt hb (by decide) hpd (by decide) (by decide) hid

end PrismaticOS.Kernel
