import Mathlib.Data.Finset.Basic
import Mathlib.Data.List.Nodup
import Mathlib.Logic.Function.Basic

/-!
# Blocks and their owners

A heap is the set of the blocks that were allocated and not freed, and objects own blocks of it.
`Owns` says that every block of the heap has one owner, and that nothing else is owned: no block is
lost, and none can be freed twice.

## What is proved

* `Owns.change` — an object gives up its blocks for others, its own or new ones.
* `freeAll_eq` — the blocks of an object can be freed, one after the other.
* `Owns.heap_empty_iff` — the heap is empty exactly if no object owns a block.
-/

namespace PrismaticOS.Library

variable {ι β : Type*}

/-- The blocks of the objects are the heap, each of them once. -/
structure Owns (owned : ι → List β) (heap : Finset β) : Prop where
  /-- An object owns a block once. -/
  nodup : ∀ i, (owned i).Nodup
  /-- A block has one owner. -/
  apart : ∀ i j x, x ∈ owned i → x ∈ owned j → i = j
  /-- Everything in the heap is owned, and everything that is owned is in the heap. -/
  mem_heap : ∀ x, x ∈ heap ↔ ∃ i, x ∈ owned i

variable {owned : ι → List β} {heap heap' : Finset β} {blocks : List β} {i : ι} {x : β}

/-! ### Owners -/

theorem Owns.empty : Owns (fun _ : ι => ([] : List β)) ∅ :=
  ⟨fun _ => List.nodup_nil, fun _ _ _ h => absurd h List.not_mem_nil, fun x => by simp⟩

/-- **Everything is freed** exactly if nothing is owned. -/
theorem Owns.heap_empty_iff (h : Owns owned heap) : heap = ∅ ↔ ∀ i, owned i = [] := by
  rw [Finset.eq_empty_iff_forall_notMem]
  constructor
  · intro hempty i
    exact List.eq_nil_iff_forall_not_mem.mpr fun x hx => hempty x ((h.mem_heap x).mpr ⟨i, hx⟩)
  · intro hnone x hx
    obtain ⟨i, hi⟩ := (h.mem_heap x).mp hx
    rw [hnone i] at hi
    exact List.not_mem_nil hi

/-- **An object changes its blocks**: it gives up those it has, for blocks that it had or that
nobody had. -/
theorem Owns.change [DecidableEq ι] (h : Owns owned heap) (hnodup : blocks.Nodup)
    (hnew : ∀ x ∈ blocks, x ∈ heap → x ∈ owned i)
    (hheap : ∀ x, x ∈ heap' ↔ (x ∈ heap ∧ x ∉ owned i) ∨ x ∈ blocks) :
    Owns (Function.update owned i blocks) heap' := by
  -- the blocks of the others are not among the new ones
  have hother : ∀ j x, j ≠ i → x ∈ owned j → x ∉ blocks ∧ x ∉ owned i := by
    intro j x hj hx
    have hnot : x ∉ owned i := fun hi => hj (h.apart j i x hx hi)
    exact ⟨fun hb => hnot (hnew x hb ((h.mem_heap x).mpr ⟨j, hx⟩)), hnot⟩
  refine ⟨fun j => ?_, fun j k x hj hk => ?_, fun x => ?_⟩
  · by_cases hji : j = i
    · rw [hji, Function.update_self]
      exact hnodup
    · rw [Function.update_of_ne hji]
      exact h.nodup j
  · by_cases hji : j = i
    · by_cases hki : k = i
      · rw [hji, hki]
      · rw [hji, Function.update_self] at hj
        rw [Function.update_of_ne hki] at hk
        exact absurd hj (hother k x hki hk).1
    · rw [Function.update_of_ne hji] at hj
      by_cases hki : k = i
      · rw [hki, Function.update_self] at hk
        exact absurd hk (hother j x hji hj).1
      · rw [Function.update_of_ne hki] at hk
        exact h.apart j k x hj hk
  · rw [hheap]
    constructor
    · rintro (⟨hx, hnot⟩ | hx)
      · obtain ⟨j, hj⟩ := (h.mem_heap x).mp hx
        have hji : j ≠ i := fun heq => hnot (heq ▸ hj)
        exact ⟨j, by rwa [Function.update_of_ne hji]⟩
      · exact ⟨i, by rwa [Function.update_self]⟩
    · rintro ⟨j, hj⟩
      by_cases hji : j = i
      · rw [hji, Function.update_self] at hj
        exact .inr hj
      · rw [Function.update_of_ne hji] at hj
        exact .inl ⟨(h.mem_heap x).mpr ⟨j, hj⟩, (hother j x hji hj).2⟩

/-! ### Freeing -/

variable [DecidableEq β]

/-- A block is freed, if it is in the heap. -/
def freeBlock (heap : Finset β) (x : β) : Option (Finset β) :=
  if x ∈ heap then some (heap.erase x) else none

/-- Blocks are freed, one after the other. -/
def freeAll (heap : Finset β) (blocks : List β) : Option (Finset β) := blocks.foldlM freeBlock heap

/-- Different blocks of the heap can be freed. -/
theorem freeAll_eq (hnodup : blocks.Nodup) (hmem : ∀ x ∈ blocks, x ∈ heap) :
    freeAll heap blocks = some (heap \ blocks.toFinset) := by
  induction blocks generalizing heap with
  | nil => simp [freeAll]
  | cons b blocks ih =>
    obtain ⟨hb, hnodup⟩ := List.nodup_cons.mp hnodup
    have hrest : ∀ x ∈ blocks, x ∈ heap.erase b := by
      intro x hx
      exact Finset.mem_erase.mpr ⟨ne_of_mem_of_not_mem hx hb, hmem x (List.mem_cons_of_mem b hx)⟩
    have hnext := ih hnodup hrest
    rw [freeAll] at hnext ⊢
    rw [List.foldlM_cons, freeBlock, if_pos (hmem b List.mem_cons_self)]
    refine hnext.trans (congrArg some ?_)
    ext y
    simp only [Finset.mem_sdiff, Finset.mem_erase, List.mem_toFinset, List.mem_cons, not_or]
    tauto

/-- What an object owns can be freed. -/
theorem Owns.freeAll (h : Owns owned heap) (i : ι) :
    Library.freeAll heap (owned i) = some (heap \ (owned i).toFinset) :=
  freeAll_eq (h.nodup i) fun x hx => (h.mem_heap x).mpr ⟨i, hx⟩

end PrismaticOS.Library
