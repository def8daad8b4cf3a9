import PrismaticOS.Kernel.PageTables
import PrismaticOS.Library.RadixTree

/-!
# Page tables as a tree

The tables of the four levels are a radix tree: three indices lead to a table of the first
level, and the fourth to the entry of a page. Some paths may be left out, where the tables
are not what `mm_map_page` made.

## What is proved

* `mmMapPage_tree`, `mmUnmapPage_tree` — mapping and unmapping keep the tree, and change
  the entry of their page only.
* `translate_mapping` — what an address is, is in the entry of its page.
-/

namespace PrismaticOS.Kernel

open PrismaticOS.Library

/-! ### The tree -/

/-- The tables that the calls of `kmalloc` from `lo` on and before `hi` return are pages of
their own. -/
structure FreshFrames (kmalloc : PageAllocator) (lo hi : ℕ) : Prop where
  /-- The calls succeed. -/
  nonzero : ∀ n, lo ≤ n → n < hi → kmalloc n pageSize ≠ 0
  /-- A table starts at a page. -/
  aligned : ∀ n, lo ≤ n → n < hi → kmalloc n pageSize % pageSize = 0
  /-- Physical addresses have 52 bits. -/
  phys : ∀ n, lo ≤ n → n < hi → kmalloc n pageSize < 2 ^ 52
  /-- No two are the same. -/
  apart : ∀ m n, lo ≤ m → m < hi → lo ≤ n → n < hi →
    kmalloc m pageSize = kmalloc n pageSize → m = n

theorem pageAllocator_fresh (lo : ℕ) {hi : ℕ} (h : hi < 2 ^ 39) :
    FreshFrames pageAllocator lo hi where
  nonzero n _ _ := Nat.ne_of_gt (Nat.add_pos_left (by decide) _)
  aligned n _ _ := pageAllocator_tables.aligned n
  phys n _ hn := by
    rw [pageAllocator]
    omega
  apart m n _ _ _ _ := pageAllocator_tables.apart m n

/-- The indices that lead to the table of the first level for an address. -/
def pagePath (virtAddr : ℕ) : List (Fin 512) :=
  [⟨pml4Index virtAddr, (index_lt virtAddr).1⟩, ⟨pdptIndex virtAddr, (index_lt virtAddr).2.1⟩,
    ⟨pdIndex virtAddr, (index_lt virtAddr).2.2.1⟩]

/-- The last index. -/
def leafIndex (virtAddr : ℕ) : Fin 512 := ⟨ptIndex virtAddr, (index_lt virtAddr).2.2.2⟩

/-- The words of the tables. -/
def tableWord (mem : ℕ → ℕ) (t : ℕ) (i : Fin 512) : ℕ := entry mem t i

/-- The page tables, but for what is under some paths. -/
def pageRadix (hidden : List (Fin 512) → Prop) : Radix ℕ (Fin 512) ℕ where
  next e := if present e then some (tableOf e) else none
  empty := 0
  good e := e &&& pteWrite ≠ 0 ∧ e &&& pteNx = 0
  inner p := p.length ≤ 3 ∧ ∀ q, q <+: p → ¬hidden q
  next_empty := rfl
  inner_left p q h := by
    have hleft : p <+: p ++ q := List.prefix_append p q
    exact ⟨hleft.length_le.trans h.1, fun r hr => h.2 r (hr.trans hleft)⟩

/-- The path of an address is not left out. -/
def Visible (hidden : List (Fin 512) → Prop) (virtAddr : ℕ) : Prop :=
  ∀ q, q <+: pagePath virtAddr → ¬hidden q

/-- The entry of a page; 0 if there is no table for it. -/
def leafEntry (mem : ℕ → ℕ) (pml4 virtAddr : ℕ) : ℕ :=
  (findPt mem pml4 virtAddr).elim 0 fun pt => entry mem pt (ptIndex virtAddr)

/-- The tables from the calls of `kmalloc` from `lo` on are a tree. -/
structure TableTree (hidden : List (Fin 512) → Prop) (kmalloc : PageAllocator) (lo : ℕ) (s : Mm)
    (path : ℕ → Option (List (Fin 512))) : Prop where
  /-- They were made. -/
  made : ∀ t p, path t = some p → ∃ n, lo ≤ n ∧ n < s.allocs ∧ t = kmalloc n pageSize
  /-- And lead to each other. -/
  labelled : (pageRadix hidden).Labelled (tableWord s.mem) path

/-! ### Paths and entries -/

variable {hidden : List (Fin 512) → Prop} {kmalloc : PageAllocator} {lo hi : ℕ} {s s' : Mm}
  {path path' : ℕ → Option (List (Fin 512))} {t u pml4 virtAddr w : ℕ} {p : List (Fin 512)}
  {i : Fin 512} {mem : ℕ → ℕ}

theorem Visible.inner (h : Visible hidden virtAddr) :
    (pageRadix hidden).inner (pagePath virtAddr) := ⟨le_rfl, h⟩

/-- The entries of pages are data. -/
theorem not_inner_leaf (i : Fin 512) : ¬(pageRadix hidden).inner (pagePath virtAddr ++ [i]) :=
  fun h => Nat.not_succ_le_self 3 h.1

theorem next_nextTable (hidden : List (Fin 512) → Prop) (mem : ℕ → ℕ) (t : ℕ) (i : Fin 512) :
    (pageRadix hidden).next (tableWord mem t i) = nextTable mem t i := rfl

theorem tableOf_of_next (hidden : List (Fin 512) → Prop) {e : ℕ} (h : (pageRadix hidden).next e = some u) : tableOf e = u := by
  unfold pageRadix at h
  dsimp only at h
  split at h
  · exact Option.some.inj h
  · cases h

theorem follow_findPt (hidden : List (Fin 512) → Prop) (mem : ℕ → ℕ) (pml4 virtAddr : ℕ) :
    (pageRadix hidden).follow (tableWord mem) pml4 (pagePath virtAddr) =
      findPt mem pml4 virtAddr := by
  simp only [pagePath, Radix.follow, next_nextTable, findPt, Option.bind_fun_some]

theorem read_leafEntry (hidden : List (Fin 512) → Prop) (mem : ℕ → ℕ) (pml4 virtAddr : ℕ) :
    (pageRadix hidden).read (tableWord mem) pml4 (pagePath virtAddr) (leafIndex virtAddr) =
      leafEntry mem pml4 virtAddr := by
  rw [Radix.read, follow_findPt]
  rfl

/-- Addresses of one page have one path; the walk does not see the bits from bit 48 on. -/
theorem pagePath_eq_iff : pagePath w = pagePath virtAddr ∧ leafIndex w = leafIndex virtAddr ↔
    w / pageSize % 2 ^ 36 = virtAddr / pageSize % 2 ^ 36 := by
  simp only [pagePath, leafIndex, pml4Index, pdptIndex, pdIndex, ptIndex, pageSize, List.cons.injEq,
    Fin.mk.injEq, and_true]
  omega

theorem and_nx (e : ℕ) : e &&& pteNx = e / 2 ^ 63 % 2 * 2 ^ 63 := by
  rw [pteNx, show 0x8000000000000000 = 2 ^ 63 by decide, Nat.and_two_pow, Nat.toNat_testBit]

/-- What `mm_map_page` writes for a new table leads to it. -/
theorem next_newEntry (hidden : List (Fin 512) → Prop) (h : t % pageSize = 0) (hlt : t < 2 ^ 52) :
    (pageRadix hidden).next (t ||| ptePresent ||| pteWrite ||| pteUser) = some t ∧
      (pageRadix hidden).good (t ||| ptePresent ||| pteWrite ||| pteUser) := by
  have heq : t ||| ptePresent ||| pteWrite ||| pteUser = 2 ^ 12 * (t / 4096) + 7 := by
    rw [newEntry_eq h]
    rw [pageSize] at h
    omega
  refine ⟨?_, ?_, ?_⟩
  · show (if present _ then some (tableOf _) else none) = _
    rw [tableOf_newEntry h, heq, present_flags _ (by decide), if_pos (by decide)]
  · rw [heq, and_flags _ (by decide) (by decide)]
    decide
  · rw [newEntry_eq h, and_nx]
    omega

/-! ### Making tables -/

/-- What making tables keeps. -/
structure Grown (hidden : List (Fin 512) → Prop) (s s' : Mm)
    (path path' : ℕ → Option (List (Fin 512))) : Prop where
  /-- The labels. -/
  labels : ∀ t p, path t = some p → path' t = some p
  /-- Where paths lead. -/
  follow : ∀ r is u, path r = some [] → (pageRadix hidden).inner is →
    (pageRadix hidden).follow (tableWord s.mem) r is = some u →
      (pageRadix hidden).follow (tableWord s'.mem) r is = some u
  /-- The entries of pages. -/
  entries : ∀ r w, path r = some [] → Visible hidden w →
    leafEntry s'.mem r w = leafEntry s.mem r w

theorem Grown.refl (hidden : List (Fin 512) → Prop) (s : Mm)
    (path : ℕ → Option (List (Fin 512))) : Grown hidden s s path path :=
  ⟨fun _ _ => id, fun _ _ _ _ _ => id, fun _ _ _ _ => rfl⟩

theorem Grown.trans {s₁ s₂ s₃ : Mm} {path₁ path₂ path₃ : ℕ → Option (List (Fin 512))}
    (h : Grown hidden s₁ s₂ path₁ path₂) (h' : Grown hidden s₂ s₃ path₂ path₃) :
    Grown hidden s₁ s₃ path₁ path₃ where
  labels t p ht := h'.labels t p (h.labels t p ht)
  follow r is u hr his hu := h'.follow r is u (h.labels r [] hr) his (h.follow r is u hr his hu)
  entries r w hr hw := (h'.entries r w (h.labels r [] hr) hw).trans (h.entries r w hr hw)

namespace TableTree

theorem aligned (h : TableTree hidden kmalloc lo s path) (hf : FreshFrames kmalloc lo hi)
    (hhi : s.allocs ≤ hi) (ht : path t = some p) : t % pageSize = 0 := by
  obtain ⟨n, hlo, hn, rfl⟩ := h.made t p ht
  exact hf.aligned n hlo (hn.trans_le hhi)

/-- A table to be made has no label. -/
theorem fresh (h : TableTree hidden kmalloc lo s path) (hf : FreshFrames kmalloc lo hi) {n : ℕ}
    (hlo : lo ≤ n) (hn : s.allocs ≤ n) (hhi : n < hi) : path (kmalloc n pageSize) = none := by
  by_contra hne
  obtain ⟨p, hp⟩ := Option.ne_none_iff_exists'.mp hne
  obtain ⟨m, hm, hlt, heq⟩ := h.made _ p hp
  have hmn := hf.apart n m hlo hhi hm (by omega) heq
  omega

/-- What does not change the tables keeps the tree. -/
theorem same (h : TableTree hidden kmalloc lo s path) (s' : Mm) (hmem : s'.mem = s.mem)
    (hallocs : s.allocs ≤ s'.allocs) : TableTree hidden kmalloc lo s' path := by
  refine ⟨fun t p ht => ?_, hmem ▸ h.labelled⟩
  obtain ⟨n, hlo, hn, heq⟩ := h.made t p ht
  exact ⟨n, hlo, hn.trans_le hallocs, heq⟩

/-- A table is made. -/
theorem withTable (h : TableTree hidden kmalloc lo s path) (hf : FreshFrames kmalloc lo hi)
    (hhi : s.allocs < hi) (ht : path t = some p) (hinner : (pageRadix hidden).inner (p ++ [i]))
    (hnone : nextTable s.mem t i = none) :
    ∃ path', TableTree hidden kmalloc lo (withTable kmalloc s t i) path' ∧
      Grown hidden s (withTable kmalloc s t i) path path' ∧
        nextTable (Kernel.withTable kmalloc s t i).mem t i = some (kmalloc s.allocs pageSize) := by
  obtain ⟨n, hlo, hn, -⟩ := h.made t p ht
  have hlo : lo ≤ s.allocs := hlo.trans hn.le
  have hpage := hf.aligned s.allocs hlo hhi
  have htpage := h.aligned hf hhi.le ht
  have hfresh := h.fresh hf hlo le_rfl hhi
  obtain ⟨hnext, hgood⟩ := next_newEntry hidden hpage (hf.phys s.allocs hlo hhi)
  have hentry : ∀ u j, u % pageSize = 0 → j < 512 → _ :=
    fun u j hu hj => entry_withTable hpage htpage i.isLt hu hj
  obtain ⟨x, hx⟩ : ∃ x, kmalloc s.allocs pageSize = x := ⟨_, rfl⟩
  have hmade : ∃ n, lo ≤ n ∧ n < (Kernel.withTable kmalloc s t i).allocs ∧ x = kmalloc n pageSize :=
    ⟨s.allocs, hlo, Nat.lt_succ_self _, hx.symm⟩
  have hkept : ∀ n, n < s.allocs → n < (Kernel.withTable kmalloc s t i).allocs :=
    fun n hn => Nat.lt_succ_of_lt hn
  obtain ⟨s', hs'⟩ : ∃ s', Kernel.withTable kmalloc s t i = s' := ⟨_, rfl⟩
  rw [hx] at hpage hfresh hnext hgood ⊢
  rw [hs'] at hmade hkept ⊢
  simp only [hx, hs'] at hentry
  have htx : t ≠ x := ne_of_fresh hfresh ht
  have hw : Radix.Written path (tableWord s.mem) (tableWord s'.mem) t i
      (x ||| ptePresent ||| pteWrite ||| pteUser) := by
    refine ⟨?_, fun u q j hu hne => ?_⟩
    · rw [tableWord, hentry t i htpage i.isLt, if_pos ⟨rfl, rfl⟩]
    · have hux : u ≠ x := ne_of_fresh hfresh hu
      rw [tableWord, hentry u j (h.aligned hf hhi.le hu) j.isLt, if_neg, if_neg hux, tableWord]
      rintro ⟨rfl, hj⟩
      exact hne.elim (fun hne => hne rfl) fun hne => hne (Fin.ext hj)
  have hempty : ∀ j, tableWord s'.mem x j = (pageRadix hidden).empty := by
    intro j
    rw [tableWord, hentry x j hpage j.isLt, if_neg fun hc => htx hc.1.symm, if_pos rfl]
    rfl
  refine ⟨Function.update path x (some (p ++ [i])), ⟨fun u q hu => ?_,
    h.labelled.grow hw ht hinner hnext hgood hfresh hempty⟩, ⟨fun u q hu => ?_,
      fun r is u hr his hu => h.labelled.follow_grow hw hnone hr his hu,
      fun r w hr hvis => ?_⟩, ?_⟩
  · rcases update_some_cases hu with ⟨rfl, -⟩ | ⟨-, hu⟩
    · exact hmade
    · obtain ⟨n, hlo, hn, heq⟩ := h.made u q hu
      exact ⟨n, hlo, hkept n hn, heq⟩
  · exact update_fresh hfresh hu
  · rw [← read_leafEntry hidden, ← read_leafEntry hidden]
    exact h.labelled.read_grow hw ht hinner hnone hnext hempty hr hvis.inner (not_inner_leaf _)
  · rw [← next_nextTable hidden, hw.self, hnext]

/-- What a level of `mm_map_page` does: the path leads one level down. -/
theorem ensureTable (h : TableTree hidden kmalloc lo s path) (hf : FreshFrames kmalloc lo hi)
    (hhi : (Kernel.ensureTable kmalloc s t i).1.allocs ≤ hi) (hp : path pml4 = some [])
    (ht : (pageRadix hidden).follow (tableWord s.mem) pml4 p = some t)
    (hinner : (pageRadix hidden).inner (p ++ [i])) :
    ∃ path', TableTree hidden kmalloc lo (Kernel.ensureTable kmalloc s t i).1 path' ∧
      Grown hidden s (Kernel.ensureTable kmalloc s t i).1 path path' ∧
        (pageRadix hidden).follow (tableWord (Kernel.ensureTable kmalloc s t i).1.mem) pml4
          (p ++ [i]) = some (Kernel.ensureTable kmalloc s t i).2 := by
  have hin := (pageRadix hidden).inner_left p [i] hinner
  rcases ensureTable_cases kmalloc s t i with ⟨hpresent, heq⟩ | ⟨habsent, heq⟩
  · have hnext : nextTable s.mem t i = some (tableOf (entry s.mem t i)) := if_pos hpresent
    rw [heq]
    exact ⟨path, h, .refl hidden s path, Radix.follow_concat ht hnext⟩
  · have hnone : nextTable s.mem t i = none := by rw [nextTable, habsent, if_neg Bool.false_ne_true]
    rw [heq] at hhi
    obtain ⟨path', htree, hgrown, hnext⟩ := h.withTable hf hhi (h.labelled.follow hp hin ht) hinner hnone
    have htable : nextTable (Kernel.withTable kmalloc s t i).mem t i =
        some (tableOf (entry (Kernel.withTable kmalloc s t i).mem t i)) :=
      hnext.trans (congrArg some (tableOf_of_next hidden hnext).symm)
    rw [heq]
    exact ⟨path', htree, hgrown, Radix.follow_concat (hgrown.follow pml4 p t hp hin ht) htable⟩

/-- The entry of a page is written. -/
theorem storePage (h : TableTree hidden kmalloc lo s path) (hf : FreshFrames kmalloc lo hi)
    (hhi : s.allocs ≤ hi) (hp : path pml4 = some []) (hv : Visible hidden virtAddr)
    (ht : findPt s.mem pml4 virtAddr = some t) (v : ℕ) :
    TableTree hidden kmalloc lo (s.store (t + 8 * ptIndex virtAddr) v) path ∧
      ∀ w, Visible hidden w → leafEntry (s.store (t + 8 * ptIndex virtAddr) v).mem pml4 w =
        if w / pageSize % 2 ^ 36 = virtAddr / pageSize % 2 ^ 36 then v
        else leafEntry s.mem pml4 w := by
  have hfollow : (pageRadix hidden).follow (tableWord s.mem) pml4 (pagePath virtAddr) = some t :=
    (follow_findPt ..).trans ht
  have hlabel : path t = some (pagePath virtAddr) := h.labelled.follow hp hv.inner hfollow
  have hw : Radix.Written path (tableWord s.mem)
      (tableWord (s.store (t + 8 * ptIndex virtAddr) v).mem) t (leafIndex virtAddr) v := by
    refine ⟨Mm.store_self .., fun u q j hu hne => Mm.store_of_ne _ _ ?_⟩
    refine word_ne (h.aligned hf hhi hu) (h.aligned hf hhi hlabel) j.isLt (leafIndex virtAddr).isLt ?_
    exact hne.imp_right fun hne he => hne (Fin.ext he)
  refine ⟨⟨h.made, h.labelled.store hw hlabel (not_inner_leaf _)⟩, fun w hwv => ?_⟩
  rw [← read_leafEntry hidden, ← read_leafEntry hidden]
  split
  · rename_i hpage
    obtain ⟨hpath, hleaf⟩ := pagePath_eq_iff.mpr hpage
    rw [hpath, hleaf]
    exact h.labelled.read_store hw hfollow hp hv.inner (not_inner_leaf _)
  · rename_i hpage
    have hne := not_and_or.mp (mt pagePath_eq_iff.mp hpage)
    exact h.labelled.read_store_of_ne hw hlabel (not_inner_leaf _) hp hwv.inner hne

end TableTree

/-! ### Calls of `kmalloc` -/

theorem ensureTable_allocs (kmalloc : PageAllocator) (s : Mm) (t i : ℕ) :
    s.allocs ≤ (ensureTable kmalloc s t i).1.allocs ∧
      (ensureTable kmalloc s t i).1.allocs ≤ s.allocs + 1 := by
  rcases ensureTable_cases kmalloc s t i with ⟨-, heq⟩ | ⟨-, heq⟩
  · rw [heq]
    exact ⟨le_rfl, Nat.le_succ _⟩
  · rw [heq]
    exact ⟨Nat.le_succ _, le_rfl⟩

/-- Mapping a page makes at most three tables. -/
theorem mmMapPage_allocs (kmalloc : PageAllocator) (s : Mm) (pml4 virtAddr physAddr flags : ℕ) :
    s.allocs ≤ (mmMapPage kmalloc s pml4 virtAddr physAddr flags).allocs ∧
      (mmMapPage kmalloc s pml4 virtAddr physAddr flags).allocs ≤ s.allocs + 3 := by
  obtain ⟨r₁, r₂, r₃, h₁, h₂, h₃, hmap⟩ := mmMapPage_eq kmalloc s pml4 virtAddr physAddr flags
  have ha₁ := ensureTable_allocs kmalloc s pml4 (pml4Index virtAddr)
  have ha₂ := ensureTable_allocs kmalloc r₁.1 r₁.2 (pdptIndex virtAddr)
  have ha₃ := ensureTable_allocs kmalloc r₂.1 r₂.2 (pdIndex virtAddr)
  rw [← h₁] at ha₁
  rw [← h₂] at ha₂
  rw [← h₃] at ha₃
  have hstore : (mmMapPage kmalloc s pml4 virtAddr physAddr flags).allocs = r₃.1.allocs := by
    rw [hmap, Mm.store]
  omega

theorem mmUnmapPage_allocs (s : Mm) (pml4 virtAddr : ℕ) :
    (mmUnmapPage s pml4 virtAddr).allocs = s.allocs := by
  rcases mmUnmapPage_cases s pml4 virtAddr with ⟨-, heq⟩ | ⟨pt, -, heq⟩
  · rw [heq]
  · rw [heq, Mm.store]

/-! ### Mapping and unmapping -/

/-- **Mapping a page** changes the entry of the page. -/
theorem mmMapPage_tree (h : TableTree hidden kmalloc lo s path) (hf : FreshFrames kmalloc lo hi)
    (physAddr flags : ℕ) (hhi : (mmMapPage kmalloc s pml4 virtAddr physAddr flags).allocs ≤ hi)
    (hp : path pml4 = some []) (hv : Visible hidden virtAddr) :
    ∃ path', TableTree hidden kmalloc lo (mmMapPage kmalloc s pml4 virtAddr physAddr flags) path' ∧
      (∀ t p, path t = some p → path' t = some p) ∧ ∀ w, Visible hidden w →
        leafEntry (mmMapPage kmalloc s pml4 virtAddr physAddr flags).mem pml4 w =
          if w / pageSize % 2 ^ 36 = virtAddr / pageSize % 2 ^ 36 then pageEntry physAddr flags
          else leafEntry s.mem pml4 w := by
  obtain ⟨r₁, r₂, r₃, h₁, h₂, h₃, hmap⟩ := mmMapPage_eq kmalloc s pml4 virtAddr physAddr flags
  have hr₃ : r₃.1.allocs ≤ hi := by rwa [hmap] at hhi
  have hr₂ : r₂.1.allocs ≤ hi := (ensureTable_allocs ..).1.trans (h₃ ▸ hr₃)
  have hr₁ : r₁.1.allocs ≤ hi := (ensureTable_allocs ..).1.trans (h₂ ▸ hr₂)
  -- the three levels
  have hin₃ : (pageRadix hidden).inner (pagePath virtAddr) := hv.inner
  have hin₂ := (pageRadix hidden).inner_left [_, _] [_] hin₃
  have hin₁ := (pageRadix hidden).inner_left [_] [_] hin₂
  obtain ⟨path₁, htree₁, hgrown₁, ht₁⟩ := h.ensureTable hf (h₁ ▸ hr₁) hp (p := []) rfl hin₁
  rw [← h₁] at htree₁ hgrown₁ ht₁
  have hp₁ := hgrown₁.labels _ _ hp
  obtain ⟨path₂, htree₂, hgrown₂, ht₂⟩ := htree₁.ensureTable hf (h₂ ▸ hr₂) hp₁ ht₁ hin₂
  rw [← h₂] at htree₂ hgrown₂ ht₂
  have hp₂ := hgrown₂.labels _ _ hp₁
  obtain ⟨path₃, htree₃, hgrown₃, ht₃⟩ := htree₂.ensureTable hf (h₃ ▸ hr₃) hp₂ ht₂ hin₃
  rw [← h₃] at htree₃ hgrown₃ ht₃
  have hp₃ := hgrown₃.labels _ _ hp₂
  have hgrown := hgrown₁.trans (hgrown₂.trans hgrown₃)
  obtain ⟨htree, hentries⟩ := htree₃.storePage hf hr₃ hp₃ hv
    ((follow_findPt hidden ..).symm.trans ht₃) (pageEntry physAddr flags)
  rw [hmap]
  refine ⟨path₃, htree, hgrown.labels, fun w hw => ?_⟩
  rw [hentries w hw, hgrown.entries pml4 w hp hw]

/-- **Unmapping a page** clears the entry of the page. -/
theorem mmUnmapPage_tree (h : TableTree hidden kmalloc lo s path) (hf : FreshFrames kmalloc lo hi)
    (hhi : s.allocs ≤ hi) (hp : path pml4 = some []) (hv : Visible hidden virtAddr) :
    TableTree hidden kmalloc lo (mmUnmapPage s pml4 virtAddr) path ∧ ∀ w, Visible hidden w →
      leafEntry (mmUnmapPage s pml4 virtAddr).mem pml4 w =
        if w / pageSize % 2 ^ 36 = virtAddr / pageSize % 2 ^ 36 then 0
        else leafEntry s.mem pml4 w := by
  rcases mmUnmapPage_cases s pml4 virtAddr with ⟨hnone, heq⟩ | ⟨pt, hpt, heq⟩
  · rw [heq]
    refine ⟨h, fun w _ => ?_⟩
    split
    · rename_i hpage
      rw [leafEntry, ← follow_findPt hidden, (pagePath_eq_iff.mpr hpage).1, follow_findPt, hnone,
        Option.elim_none]
    · rfl
  · rw [heq]
    exact h.storePage hf hhi hp hv hpt 0

/-! ### Walking -/

/-- What an entry of the first level says about a page. -/
structure Mapping where
  /-- The physical page. -/
  frame : ℕ
  /-- It may be written. -/
  write : Bool
  /-- It may not be executed. -/
  noExec : Bool
  deriving DecidableEq

/-- What a translation says about a page. -/
def Translation.mapping (tr : Translation) : Mapping := ⟨tr.frame, tr.write, tr.noExec⟩

/-- What the entry of a page says about it. -/
def entryMapping (e : ℕ) : Option Mapping :=
  if present e then some ⟨e / 2 ^ 12 % 2 ^ 40, e &&& pteWrite != 0, e &&& pteNx != 0⟩ else none

/-- The entry of a page, in numbers. -/
theorem pageEntry_eq {physAddr : ℕ} (h : physAddr % pageSize = 0) (hlt : physAddr < 2 ^ 51)
    (flags : ℕ) : pageEntry physAddr flags =
      2 ^ 12 * ((if flags &&& memExec = 0 then 2 ^ 51 else 0) + physAddr / 2 ^ 12) +
        if flags &&& memWrite ≠ 0 then 7 else 5 := by
  obtain ⟨q, rfl⟩ : ∃ q, physAddr = 2 ^ 12 * q := Nat.dvd_of_mod_eq_zero h
  have hwrite : (if flags &&& memWrite ≠ 0 then 2 ^ 12 * q ||| ptePresent ||| pteUser ||| pteWrite
      else 2 ^ 12 * q ||| ptePresent ||| pteUser) =
      2 ^ 12 * q + if flags &&& memWrite ≠ 0 then 7 else 5 := by
    split
    · rw [Nat.or_assoc, Nat.or_assoc, Nat.two_pow_add_eq_or_of_lt (by decide),
        show ptePresent ||| (pteUser ||| pteWrite) = 7 by decide]
    · rw [Nat.or_assoc, Nat.two_pow_add_eq_or_of_lt (by decide),
        show ptePresent ||| pteUser = 5 by decide]
  obtain ⟨f, hf⟩ : ∃ f, (if flags &&& memWrite ≠ 0 then 7 else 5) = f := ⟨_, rfl⟩
  have hflt : f < 8 := by
    rw [← hf]
    split <;> decide
  rw [hf] at hwrite ⊢
  unfold pageEntry
  simp only [hwrite]
  rw [Nat.mul_div_cancel_left q (by decide)]
  split
  · have hnx := Nat.two_pow_add_eq_or_of_lt (i := 63) (b := 2 ^ 12 * q + f) (by omega) 1
    rw [Nat.or_comm, show pteNx = 2 ^ 63 * 1 by decide, ← hnx]
    omega
  · rw [Nat.zero_add]

/-- **The entry of a page** says what `mm_map_page` was asked for. -/
theorem entryMapping_pageEntry {physAddr : ℕ} (h : physAddr % pageSize = 0)
    (hlt : physAddr < 2 ^ 51) (flags : ℕ) : entryMapping (pageEntry physAddr flags) =
      some ⟨physAddr / pageSize, flags &&& memWrite != 0, flags &&& memExec == 0⟩ := by
  obtain ⟨n, hn⟩ : ∃ n, (if flags &&& memExec = 0 then 2 ^ 51 else 0) + physAddr / 2 ^ 12 = n :=
    ⟨_, rfl⟩
  obtain ⟨f, hf⟩ : ∃ f, (if flags &&& memWrite ≠ 0 then 7 else 5) = f := ⟨_, rfl⟩
  have hflags : f < 2 ^ 12 ∧ present f = true ∧
      (f &&& pteWrite != 0) = (flags &&& memWrite != 0) := by
    rw [← hf]
    split
    · rename_i hwrite
      exact ⟨by decide, by decide, (bne_iff_ne.mpr hwrite).symm⟩
    · rename_i hwrite
      exact ⟨by decide, by decide, (bne_eq_false_iff_eq.mpr (not_not.mp hwrite)).symm⟩
  obtain ⟨hlt', hpresent, hwrite⟩ := hflags
  have hframe : (2 ^ 12 * n + f) / 2 ^ 12 % 2 ^ 40 = physAddr / pageSize := by
    rw [← hn, pageSize]
    split <;> omega
  have hnx : ((2 ^ 12 * n + f) &&& pteNx != 0) = (flags &&& memExec == 0) := by
    rw [and_nx, ← hn]
    split
    · rename_i hexec
      rw [beq_iff_eq.mpr hexec, bne_iff_ne]
      omega
    · rename_i hexec
      rw [beq_false_of_ne hexec, bne_eq_false_iff_eq]
      omega
  rw [pageEntry_eq h hlt, hn, hf, entryMapping, present_flags n hlt', if_pos hpresent, hframe, hnx,
    and_flags n hlt' (by decide), hwrite]

theorem entryMapping_zero : entryMapping 0 = none := if_neg (by decide)

/-- **What an address is** is in the entry of its page: the tables on the way forbid nothing. -/
theorem translate_mapping (h : TableTree hidden kmalloc lo s path) (hp : path pml4 = some [])
    (hv : Visible hidden virtAddr) :
    (translate s.mem pml4 virtAddr).map Translation.mapping =
      entryMapping (leafEntry s.mem pml4 virtAddr) := by
  have hin₃ : (pageRadix hidden).inner (pagePath virtAddr) := hv.inner
  have hin₂ := (pageRadix hidden).inner_left [_, _] [_] hin₃
  have hin₁ := (pageRadix hidden).inner_left [_] [_] hin₂
  rw [leafEntry, findPt, translate, walkEntries]
  cases h₁ : nextTable s.mem pml4 (pml4Index virtAddr) with
  | none => exact entryMapping_zero.symm
  | some pdpt =>
    obtain ⟨hw₁, hx₁⟩ := h.labelled.good pml4 [] _ pdpt hp hin₁ h₁
    have hlabel₁ := h.labelled.down pml4 [] _ pdpt hp hin₁ h₁
    rw [Option.bind_some, Option.bind_some]
    cases h₂ : nextTable s.mem pdpt (pdptIndex virtAddr) with
    | none => exact entryMapping_zero.symm
    | some pd =>
      obtain ⟨hw₂, hx₂⟩ := h.labelled.good pdpt _ _ pd hlabel₁ hin₂ h₂
      have hlabel₂ := h.labelled.down pdpt _ _ pd hlabel₁ hin₂ h₂
      rw [Option.bind_some, Option.bind_some]
      cases h₃ : nextTable s.mem pd (pdIndex virtAddr) with
      | none => exact entryMapping_zero.symm
      | some pt =>
        obtain ⟨hw₃, hx₃⟩ := h.labelled.good pd _ _ pt hlabel₂ hin₃ h₃
        simp only [tableWord] at hw₁ hx₁ hw₂ hx₂ hw₃ hx₃
        rw [Option.bind_some, Option.elim_some, entryMapping]
        split
        · simp [Translation.mapping, bne_iff_ne.mpr hw₁, hx₁, bne_iff_ne.mpr hw₂, hx₂,
            bne_iff_ne.mpr hw₃, hx₃]
        · rfl

end PrismaticOS.Kernel
