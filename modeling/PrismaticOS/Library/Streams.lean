import Mathlib.Data.List.Basic

/-!
# Streams of codes

A sequence is written as the codes of its items, one after the other. Codes whose first letter
tells how long they are can be read again.

## What is proved

* `map_code_of_flatMap` — the stream determines the codes of the items.
* `flatMap_eq_iff` — two sequences have one stream exactly if they are the same in what the code
  tells of an item.
-/

namespace PrismaticOS.Library

variable {α β γ : Type*} {code : α → List β}

/-- The first letter of a code tells how many follow. -/
def TellsLength (code : α → List β) (len : β → ℕ) : Prop :=
  ∀ a, ∃ b rest, code a = b :: rest ∧ rest.length = len b

/-- The codes at the beginning of two streams that are the same. -/
theorem TellsLength.split {len : β → ℕ} (hcode : TellsLength code len) {a b : α} {u v : List β}
    (h : code a ++ u = code b ++ v) : code a = code b ∧ u = v := by
  obtain ⟨x, xs, ha, hxs⟩ := hcode a
  obtain ⟨y, ys, hb, hys⟩ := hcode b
  rw [ha, hb, List.cons_append, List.cons_append] at h
  obtain ⟨rfl, htail⟩ := List.cons.inj h
  obtain ⟨rfl, rfl⟩ := List.append_inj htail (hxs.trans hys.symm)
  exact ⟨ha.trans hb.symm, rfl⟩

/-- **The stream determines the codes.** -/
theorem map_code_of_flatMap {len : β → ℕ} (hcode : TellsLength code len) :
    ∀ {s t : List α}, s.flatMap code = t.flatMap code → s.map code = t.map code
  | [], [], _ => rfl
  | [], b :: t, h => by
    obtain ⟨x, xs, hb, -⟩ := hcode b
    rw [List.flatMap_nil, List.flatMap_cons, hb] at h
    cases h
  | a :: s, [], h => by
    obtain ⟨x, xs, ha, -⟩ := hcode a
    rw [List.flatMap_nil, List.flatMap_cons, ha] at h
    cases h
  | a :: s, b :: t, h => by
    rw [List.flatMap_cons, List.flatMap_cons] at h
    obtain ⟨hhead, htail⟩ := hcode.split h
    rw [List.map_cons, List.map_cons, hhead, map_code_of_flatMap hcode htail]

/-- What two functions tell of an item, they tell of a sequence. -/
theorem map_eq_map_iff {f : α → β} {g : α → γ} (h : ∀ a b, f a = f b ↔ g a = g b) :
    ∀ s t : List α, s.map f = t.map f ↔ s.map g = t.map g
  | [], [] => ⟨fun _ => rfl, fun _ => rfl⟩
  | [], _ :: _ => iff_of_false (List.cons_ne_nil _ _).symm (List.cons_ne_nil _ _).symm
  | _ :: _, [] => iff_of_false (List.cons_ne_nil _ _) (List.cons_ne_nil _ _)
  | a :: s, b :: t => by
    simp only [List.map_cons, List.cons.injEq, h, map_eq_map_iff h s t]

/-- **One stream for two sequences.** -/
theorem flatMap_eq_iff {len : β → ℕ} (hcode : TellsLength code len) {tells : α → γ}
    (htells : ∀ a b, code a = code b ↔ tells a = tells b) (s t : List α) :
    s.flatMap code = t.flatMap code ↔ s.map tells = t.map tells := by
  rw [← map_eq_map_iff htells]
  constructor
  · exact map_code_of_flatMap hcode
  · intro h
    rw [List.flatMap_def, List.flatMap_def, h]

end PrismaticOS.Library
