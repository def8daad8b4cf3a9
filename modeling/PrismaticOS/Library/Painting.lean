import Mathlib.Data.Set.Basic
import PrismaticOS.Library.Loops

/-!
# Painting

A canvas is a function from places to colours. A stroke gives one colour to all places of a region,
over what was there. What is seen of a list of strokes at a place is the last one that covers it.

## What is proved

* `paint_apply` — the colour at each place.
* `topmost_flatMap` — strokes in layers: the last layer that covers the place.
* `forInt_fill` — a loop of strokes of one colour, each of which may fail, is one stroke.
-/

namespace PrismaticOS.Library

variable {P C L : Type*}

open Classical in
/-- A canvas with one colour in a region. -/
noncomputable def fill (region : Set P) (colour : C) (canvas : P → C) : P → C :=
  fun p => if p ∈ region then colour else canvas p

/-- A region and its colour. -/
structure Stroke (P C : Type*) where
  /-- The places that are painted. -/
  region : Set P
  /-- What they are painted with. -/
  colour : C

/-- The canvas after the strokes, one after another. -/
noncomputable def paint (strokes : List (Stroke P C)) (canvas : P → C) : P → C :=
  strokes.foldl (fun canvas s => fill s.region s.colour canvas) canvas

open Classical in
/-- The colour of the last stroke that covers the place. -/
noncomputable def topmost (strokes : List (Stroke P C)) (p : P) : Option C :=
  (strokes.reverse.find? fun s => decide (p ∈ s.region)).map Stroke.colour

variable {region : Set P} {colour : C} {canvas : P → C} {p : P} {strokes : List (Stroke P C)}

theorem fill_of_mem (h : p ∈ region) : fill region colour canvas p = colour := if_pos h

theorem fill_of_notMem (h : p ∉ region) : fill region colour canvas p = canvas p := if_neg h

@[simp] theorem fill_empty : fill ∅ colour canvas = canvas :=
  funext fun _ => fill_of_notMem (Set.notMem_empty _)

/-- Two strokes of one colour are one. -/
theorem fill_fill (region' : Set P) :
    fill region' colour (fill region colour canvas) = fill (region ∪ region') colour canvas := by
  funext p
  by_cases h' : p ∈ region'
  · rw [fill_of_mem h', fill_of_mem (.inr h')]
  · by_cases h : p ∈ region
    · rw [fill_of_notMem h', fill_of_mem h, fill_of_mem (.inl h)]
    · rw [fill_of_notMem h', fill_of_notMem h, fill_of_notMem (by simp [h, h'])]

/-! ### What is seen -/

@[simp] theorem paint_nil : paint [] canvas = canvas := rfl

theorem paint_cons (s : Stroke P C) :
    paint (s :: strokes) canvas = paint strokes (fill s.region s.colour canvas) := rfl

theorem paint_append (more : List (Stroke P C)) :
    paint (strokes ++ more) canvas = paint more (paint strokes canvas) := List.foldl_append

@[simp] theorem topmost_nil : topmost ([] : List (Stroke P C)) p = none := rfl

/-- Later strokes are on top of earlier ones. -/
theorem topmost_append (more : List (Stroke P C)) :
    topmost (strokes ++ more) p = (topmost more p).or (topmost strokes p) := by
  classical
  simp only [topmost, List.reverse_append, List.find?_append, Option.map_or]

theorem topmost_singleton_of_mem {s : Stroke P C} (h : p ∈ s.region) :
    topmost [s] p = some s.colour := by
  classical
  simp [topmost, h]

theorem topmost_singleton_of_notMem {s : Stroke P C} (h : p ∉ s.region) :
    topmost [s] p = none := by
  classical
  simp [topmost, h]

/-- Strokes none of which covers the place. -/
theorem topmost_eq_none (h : ∀ s ∈ strokes, p ∉ s.region) : topmost strokes p = none := by
  classical
  simpa [topmost] using h

/-- A list whose first stroke covers the place. -/
theorem topmost_cons_of_mem {s : Stroke P C} (h : p ∈ s.region) :
    ∃ c, topmost (s :: strokes) p = some c := by
  rw [← List.singleton_append, topmost_append, topmost_singleton_of_mem h]
  cases topmost strokes p with
  | none => exact ⟨s.colour, rfl⟩
  | some c => exact ⟨c, rfl⟩

/-- **What is seen at a place** is the last stroke that covers it, or the canvas. -/
theorem paint_apply (strokes : List (Stroke P C)) (canvas : P → C) (p : P) :
    paint strokes canvas p = (topmost strokes p).getD (canvas p) := by
  induction strokes generalizing canvas with
  | nil => rfl
  | cons s strokes ih =>
    rw [paint_cons, ih, ← List.singleton_append, topmost_append]
    cases topmost strokes p with
    | some c => rfl
    | none =>
      by_cases h : p ∈ s.region
      · rw [topmost_singleton_of_mem h, Option.getD_none, fill_of_mem h]
        rfl
      · rw [topmost_singleton_of_notMem h, Option.getD_none, fill_of_notMem h]
        rfl

/-- **Strokes in layers**: the last layer that covers the place is seen. -/
theorem topmost_flatMap (layers : List L) (strokes : L → List (Stroke P C)) (p : P) :
    topmost (layers.flatMap strokes) p = layers.reverse.findSome? fun l => topmost (strokes l) p := by
  induction layers with
  | nil => rfl
  | cons l layers ih =>
    rw [List.flatMap_cons, topmost_append, ih, List.reverse_cons, List.findSome?_append,
      List.findSome?_singleton]

/-! ### Loops that paint -/

/-- **A loop of strokes of one colour** is one stroke. -/
theorem forInt_fill {lo hi : ℤ} {body : ℤ → (P → C) → Option (P → C)} (region : ℤ → Set P)
    (hbody : ∀ k, lo ≤ k → k < hi → ∀ canvas,
      body k canvas = some (fill (region k) colour canvas)) (canvas : P → C) :
    forInt lo hi body canvas =
      some (fill {p | ∃ k, lo ≤ k ∧ k < hi ∧ p ∈ region k} colour canvas) := by
  have hnone : ∀ hi ≤ lo, {p | ∃ k, lo ≤ k ∧ k < hi ∧ p ∈ region k} = ∅ := fun hi hle =>
    Set.eq_empty_of_forall_notMem fun p ⟨k, h1, h2, _⟩ => by omega
  by_cases hlt : hi ≤ lo
  · rw [forInt_of_le hlt, hnone hi hlt, fill_empty]
  obtain ⟨d, rfl⟩ : ∃ d : ℕ, hi = lo + d := ⟨(hi - lo).toNat, by omega⟩
  clear hlt
  induction d with
  | zero =>
    have hfirst : lo + ((0 : ℕ) : ℤ) ≤ lo := by omega
    rw [forInt_of_le hfirst, hnone _ hfirst, fill_empty]
  | succ d ih =>
    have hlast : lo + ((d + 1 : ℕ) : ℤ) = lo + d + 1 := by omega
    rw [hlast] at hbody ⊢
    have hunion : {p | ∃ k, lo ≤ k ∧ k < lo + d + 1 ∧ p ∈ region k} =
        {p | ∃ k, lo ≤ k ∧ k < lo + d ∧ p ∈ region k} ∪ region (lo + d) := by
      ext p
      constructor
      · rintro ⟨k, h1, h2, hp⟩
        by_cases hk : k = lo + d
        · exact .inr (hk ▸ hp)
        · exact .inl ⟨k, h1, by omega, hp⟩
      · rintro (⟨k, h1, h2, hp⟩ | hp)
        · exact ⟨k, h1, by omega, hp⟩
        · exact ⟨lo + d, by omega, by omega, hp⟩
    rw [forInt_succ (by omega), ih fun k h1 h2 => hbody k h1 (by omega), Option.bind_some,
      hbody (lo + d) (by omega) (by omega), fill_fill, hunion]

end PrismaticOS.Library
