import PrismaticOS.Library.Gaps
import PrismaticOS.Library.Loops
import PrismaticOS.Library.LinkedList
import PrismaticOS.Kernel.Paging

/-!
# The search for a free address

`mm_alloc_region` looks for an address in no region by a walk over the list of regions, which
starts again from the head whenever a region is in the way. Here the walk is as the code has
it, node by node, over any records: they may overlap, be empty, or end before they start.

The addresses are only compared and copied, so that any number may stand for one: the 64-bit
ones are among them.

## What is proved

* `conflictSearch_least` — on a list that ends, the search ends, with the least address from
  the end of the heap on that is in no region.
* `conflictSearch_regionAddr` — it is the address that `mm_alloc_region` takes.
* `region_search_ends` — it ends within the square of the number of nodes, and is in no region.
-/

namespace PrismaticOS.Kernel

open PrismaticOS.Library

/-- The `memory_region_t` records that pointers point at. -/
structure RegionRecords where
  /-- The fields apart from the link. -/
  region : ℕ → MemoryRegion
  /-- `next`. -/
  next : ℕ → ℕ

/-- The variables of the search. -/
structure Search where
  /-- `region`, 0 for `NULL`. -/
  region : ℕ
  /-- `addr`. -/
  addr : ℕ

/-- An address is in a region. -/
def MemoryRegion.covers (r : MemoryRegion) (addr : ℕ) : Bool :=
  decide (r.start ≤ addr ∧ addr < r.end)

/-- One turn of the search, unless it has come to the end of the list. -/
def searchTurn (m : RegionRecords) (regions : ℕ) (s : Search) : Option Search :=
  if s.region = 0 then none
  else if (m.region s.region).covers s.addr then
    -- the search starts again
    some ⟨regions, (m.region s.region).end⟩
  else some ⟨m.next s.region, s.addr⟩

/-- The search of `mm_alloc_region`, from the head of the list and the end of the heap, as far as
the fuel goes. -/
def conflictSearch (m : RegionRecords) (regions heapEnd fuel : ℕ) : Option ℕ :=
  (whileTurns (searchTurn m regions) fuel ⟨regions, heapEnd⟩).map Search.addr

/-- The interval of addresses that a region is. -/
def MemoryRegion.span (r : MemoryRegion) : ℕ × ℕ := (r.start, r.end)

/-- The intervals of a list of regions. -/
def spansOf (regions : List MemoryRegion) : List (ℕ × ℕ) := regions.map MemoryRegion.span

variable {m : RegionRecords} {head addr heapEnd : ℕ} {xs seen rest : List ℕ} {s : Search}
  {regions : List MemoryRegion} {r : MemoryRegion}

/-! ### Regions as intervals -/

theorem covers_iff : r.covers addr = true ↔ addr ∈ Set.Ico r.span.1 r.span.2 := decide_eq_true_iff

/-- An address is in no region. -/
theorem free_iff :
    (∀ span ∈ spansOf regions, addr ∉ Set.Ico span.1 span.2) ↔
      ∀ r ∈ regions, r.covers addr = false := by
  simp only [spansOf, List.forall_mem_map, ← covers_iff, Bool.not_eq_true]

/-- There is no gap between an address in a region and its end. -/
theorem gapsFrom_covers (hr : r ∈ regions) (h : r.covers addr = true) :
    gapsFrom (spansOf regions) r.end = gapsFrom (spansOf regions) addr :=
  gapsFrom_hit (List.mem_map_of_mem hr) (covers_iff.mp h)

/-- Fewer regions end above the end of one. -/
theorem endsAbove_covers (hr : r ∈ regions) (h : r.covers addr = true) :
    endsAbove (spansOf regions) r.end < endsAbove (spansOf regions) addr :=
  endsAbove_hit (List.mem_map_of_mem hr) (covers_iff.mp h).2

/-- There are no more ends than regions. -/
theorem endsAbove_regions (regions : List MemoryRegion) (addr : ℕ) :
    endsAbove (spansOf regions) addr ≤ regions.length := by
  simpa [spansOf] using endsAbove_le (spansOf regions) addr

/-! ### One turn -/

/-- What holds at every turn, with the nodes behind the cursor and the ones to come. -/
structure SearchInv (m : RegionRecords) (xs : List ℕ) (heapEnd : ℕ) (seen rest : List ℕ)
    (s : Search) : Prop where
  /-- Together they are the list. -/
  nodes : xs = seen ++ rest
  /-- The list goes on from the cursor. -/
  walk : Seg m.next s.region rest 0
  /-- No region behind the cursor is in the way. -/
  free : ∀ x ∈ seen, (m.region x).covers s.addr = false
  /-- There is no gap that the search has left behind. -/
  gaps : gapsFrom (spansOf (xs.map m.region)) s.addr =
    gapsFrom (spansOf (xs.map m.region)) heapEnd

/-- A bound of the turns to come: a walk over the whole list for each end above the address, and
what is left of this one. -/
def turnsLeft (m : RegionRecords) (xs rest : List ℕ) (addr : ℕ) : ℕ :=
  endsAbove (spansOf (xs.map m.region)) addr * (xs.length + 1) + rest.length

/-- A turn with a region under the cursor. -/
theorem searchTurn_node (h : s.region ≠ 0) :
    searchTurn m head s = some
      (if (m.region s.region).covers s.addr then ⟨head, (m.region s.region).end⟩
        else ⟨m.next s.region, s.addr⟩) := by
  rw [searchTurn, if_neg h]
  split <;> rfl

/-- The search starts with all nodes to come. -/
theorem searchInv_start (h : Seg m.next head xs 0) (heapEnd : ℕ) :
    SearchInv m xs heapEnd [] xs ⟨head, heapEnd⟩ where
  nodes := rfl
  walk := h
  free _ hx := absurd hx List.not_mem_nil
  gaps := rfl

/-- Starting again costs one of the ends above the address. -/
theorem turnsLeft_restart (hr : r ∈ xs.map m.region) (h : r.covers addr = true) :
    turnsLeft m xs xs r.end < turnsLeft m xs rest addr := by
  have hfewer := endsAbove_covers hr h
  have hmul := Nat.mul_le_mul_right (xs.length + 1) (Nat.succ_le_of_lt hfewer)
  rw [Nat.succ_mul] at hmul
  simp only [turnsLeft]
  omega

/-- A turn goes on to the next node, or starts again with fewer ends above the address. -/
theorem SearchInv.turn {s' : Search} (hs : SearchInv m xs heapEnd seen rest s)
    (h : Seg m.next head xs 0) (hturn : searchTurn m head s = some s') :
    ∃ seen' rest', SearchInv m xs heapEnd seen' rest' s' ∧
      turnsLeft m xs rest' s'.addr < turnsLeft m xs rest s.addr := by
  obtain ⟨node, addr⟩ := s
  obtain ⟨hnodes, hwalk, hfree, hgaps⟩ := hs
  cases rest with
  | nil =>
    obtain rfl : node = 0 := hwalk
    cases hturn
  | cons x rest =>
    obtain ⟨rfl, hx, hnext⟩ := hwalk
    rw [searchTurn_node hx, Option.some_inj] at hturn
    subst hturn
    cases hcov : (m.region node).covers addr with
    | true =>
      have hmem : m.region node ∈ xs.map m.region := by simp [hnodes]
      have hstart := searchInv_start h (m.region node).end
      have hgaps' := (gapsFrom_covers hmem hcov).trans hgaps
      simp only [if_true]
      exact ⟨[], xs, { hstart with gaps := hgaps' }, turnsLeft_restart hmem hcov⟩
    | false =>
      simp only [Bool.false_eq_true, if_false]
      refine ⟨seen ++ [node], rest, ⟨by simp [hnodes], hnext, ?_, hgaps⟩, Nat.lt_succ_self _⟩
      intro y hy
      rcases List.mem_append.mp hy with hy | hy
      · exact hfree y hy
      · rw [List.mem_singleton.mp hy]
        exact hcov

/-- At the end of the list, all regions are behind the cursor. -/
theorem SearchInv.least (hs : SearchInv m xs heapEnd seen rest s)
    (hend : searchTurn m head s = none) :
    IsLeast (gapsFrom (spansOf (xs.map m.region)) heapEnd) s.addr := by
  obtain ⟨rfl, hwalk, hfree, hgaps⟩ := hs
  have hnull : s.region = 0 := by
    by_contra hne
    rw [searchTurn_node hne] at hend
    cases hend
  obtain rfl : rest = [] := hwalk.eq_nil_iff.mpr hnull
  rw [List.append_nil] at hgaps ⊢
  rw [← hgaps]
  exact isLeast_gapsFrom (free_iff.mpr (List.forall_mem_map.mpr hfree))

/-! ### The search -/

/-- **The search ends**, with the least address from the end of the heap on that is in no
region. -/
theorem conflictSearch_least (h : Seg m.next head xs 0) (heapEnd : ℕ) :
    ∃ addr, IsLeast (gapsFrom (spansOf (xs.map m.region)) heapEnd) addr ∧
      ∀ fuel, (xs.length + 1) ^ 2 ≤ fuel → conflictSearch m head heapEnd fuel = some addr := by
  obtain ⟨n, s, ⟨seen, rest, hs, -⟩, hend, hrun⟩ :=
    whileTurns_rule
      (fun n s => ∃ seen rest, SearchInv m xs heapEnd seen rest s ∧ turnsLeft m xs rest s.addr = n)
      (searchTurn m head) ⟨[], xs, searchInv_start h heapEnd, rfl⟩ <| by
        rintro n s s' ⟨seen, rest, hs, rfl⟩ hturn
        obtain ⟨seen', rest', hs', hless⟩ := hs.turn h hturn
        exact ⟨_, hless, seen', rest', hs', rfl⟩
  refine ⟨s.addr, hs.least hend, fun fuel hfuel => ?_⟩
  have hlen := endsAbove_regions (xs.map m.region) heapEnd
  rw [List.length_map] at hlen
  have hends := Nat.mul_le_mul_right (xs.length + 1) hlen
  have hlt : turnsLeft m xs xs heapEnd < fuel := by
    rw [sq, Nat.succ_mul] at hfuel
    rw [turnsLeft]
    omega
  rw [conflictSearch, hrun fuel hlt, Option.map_some]

/-! ### The search of the model -/

theorem conflict_eq_find (regions : List MemoryRegion) (addr : ℕ) :
    conflict regions addr = regions.find? fun r => r.covers addr :=
  rfl

/-- With a restart for each end that is above it, an address gets past all regions. -/
theorem findAddr_least {restarts : ℕ} (h : endsAbove (spansOf regions) addr ≤ restarts) :
    IsLeast (gapsFrom (spansOf regions) addr) (findAddr regions restarts addr) := by
  induction restarts generalizing addr with
  | zero =>
    refine isLeast_gapsFrom (free_iff.mpr fun r hr => ?_)
    by_contra hcov
    have hfewer := endsAbove_covers hr (Bool.eq_true_of_not_eq_false hcov)
    omega
  | succ restarts ih =>
    cases hr : regions.find? fun r => r.covers addr with
    | none =>
      rw [findAddr, conflict_eq_find, hr]
      exact isLeast_gapsFrom (free_iff.mpr fun r hmem =>
        Bool.eq_false_of_not_eq_true (List.find?_eq_none.mp hr r hmem))
    | some r =>
      have hmem := List.mem_of_find?_eq_some hr
      have hcov := List.find?_some hr
      have hfewer := endsAbove_covers hmem hcov
      rw [findAddr, conflict_eq_find, hr, ← gapsFrom_covers hmem hcov]
      exact ih (by omega)

/-- The search finds the address that `mm_alloc_region` takes in the model. -/
theorem conflictSearch_regionAddr (h : Seg m.next head xs 0) {space : MemorySpace}
    (hregions : space.regions = xs.map m.region) {fuel : ℕ} (hfuel : (xs.length + 1) ^ 2 ≤ fuel) :
    conflictSearch m head space.heapEnd fuel = some (regionAddr space) := by
  obtain ⟨addr, hleast, hrun⟩ := conflictSearch_least h space.heapEnd
  have hmodel := findAddr_least (endsAbove_regions space.regions space.heapEnd)
  rw [hregions] at hmodel
  rw [hrun fuel hfuel, regionAddr, hregions, hleast.unique hmodel]

/-- **The search of `mm_alloc_region` ends.** From any end of the heap, over a list of regions
with any starts and ends, it comes to an address that is in none of them. -/
theorem region_search_ends (m : RegionRecords) {head : ℕ} {xs : List ℕ}
    (h : Seg m.next head xs 0) (heapEnd : ℕ) :
    ∃ addr, (∀ fuel, (xs.length + 1) ^ 2 ≤ fuel → conflictSearch m head heapEnd fuel = some addr) ∧
      ∀ x ∈ xs, ¬((m.region x).start ≤ addr ∧ addr < (m.region x).end) := by
  obtain ⟨addr, hleast, hrun⟩ := conflictSearch_least h heapEnd
  refine ⟨addr, hrun, fun x hx hin => ?_⟩
  have hfree := free_iff.mp hleast.1.2 (m.region x) (List.mem_map_of_mem hx)
  exact absurd hin (of_decide_eq_false hfree)

/-- Three regions, of which two overlap and one ends before it starts. -/
def overlapping : RegionRecords where
  region := fun
    | 1 => ⟨30, 20, 0⟩
    | 2 => ⟨15, 40, 0⟩
    | _ => ⟨10, 18, 0⟩
  next := fun
    | 1 => 2
    | 2 => 3
    | _ => 0

theorem region_search_ends_overlapping :
    conflictSearch overlapping 1 12 16 = some 40 ∧
      ∃ addr, (∀ fuel, 16 ≤ fuel → conflictSearch overlapping 1 12 fuel = some addr) ∧
        ∀ x ∈ [1, 2, 3], ¬((overlapping.region x).start ≤ addr ∧
          addr < (overlapping.region x).end) :=
  ⟨by decide, region_search_ends overlapping
    (show Seg overlapping.next 1 [1, 2, 3] 0 by simp [overlapping]) 12⟩

end PrismaticOS.Kernel
