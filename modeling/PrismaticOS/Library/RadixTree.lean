import Mathlib.Logic.Function.Basic
import Mathlib.Data.List.Basic
import Mathlib.Data.Option.Basic
import PrismaticOS.Library.PartialMaps

/-!
# Radix trees of tables

A table has a word at every index. A word may lead to a table, and a path of indices goes
from a root through the tables that its words lead to. The tables may be anywhere, and what
makes a tree of them is a label for each one: the path that leads to it.

## What is proved

* `Labelled.follow` — a path from the root leads to the table with this label, so that two
  paths do not lead to one table.
* `Labelled.addTable` — a table gets a label.
* `Labelled.grow`, `Labelled.read_grow` — an empty table is put in: what is read at the ends
  of paths stays.
* `Labelled.store`, `Labelled.read_store`, `Labelled.read_store_of_ne` — a word that is
  written at the end of a path is read there, and what is read elsewhere stays.
-/

namespace PrismaticOS.Library

/-- How words lead to tables. -/
structure Radix (τ ι β : Type) where
  /-- The table that a word leads to. -/
  next : β → Option τ
  /-- What the words of a new table are. -/
  empty : β
  /-- What words that lead to tables should be. -/
  good : β → Prop
  /-- The paths that lead to tables; other words are data. -/
  inner : List ι → Prop
  /-- A new table leads nowhere. -/
  next_empty : next empty = none
  /-- There are tables on the way to a table. -/
  inner_left : ∀ p q, inner (p ++ q) → inner p

namespace Radix

variable {τ ι β : Type} (R : Radix τ ι β)

/-- The table at the end of a path. -/
def follow (word : τ → ι → β) : τ → List ι → Option τ
  | t, [] => some t
  | t, i :: is => (R.next (word t i)).bind fun u => follow word u is

/-- The word at an index of the table at the end of a path; the path may end early. -/
def read (word : τ → ι → β) (t : τ) (is : List ι) (i : ι) : β :=
  (R.follow word t is).elim R.empty fun u => word u i

/-- The tables with labels are a tree. -/
structure Labelled (word : τ → ι → β) (path : τ → Option (List ι)) : Prop where
  /-- A word leads to the table with its label. -/
  down : ∀ t p i u, path t = some p → R.inner (p ++ [i]) → R.next (word t i) = some u →
    path u = some (p ++ [i])
  /-- And is as it should be. -/
  good : ∀ t p i u, path t = some p → R.inner (p ++ [i]) → R.next (word t i) = some u →
    R.good (word t i)

/-- In the tables with labels, only the word at index `i` of `t` was written. -/
structure Written (path : τ → Option (List ι)) (word word' : τ → ι → β) (t : τ) (i : ι) (v : β) :
    Prop where
  /-- What was written. -/
  self : word' t i = v
  /-- The others. -/
  other : ∀ u q j, path u = some q → u ≠ t ∨ j ≠ i → word' u j = word u j

/-- Without labels. -/
theorem labelled_none (word : τ → ι → β) : R.Labelled word fun _ => none := ⟨nofun, nofun⟩

variable {R} {word word' : τ → ι → β} {path : τ → Option (List ι)} {t u r : τ} {p q is js : List ι}
  {i j k : ι} {v : β}

theorem follow_cons (h : R.next (word t i) = some u) :
    R.follow word t (i :: is) = R.follow word u is := by
  rw [follow, h, Option.bind_some]

/-- One step more. -/
theorem follow_concat (ht : R.follow word r is = some t) (hu : R.next (word t i) = some u) :
    R.follow word r (is ++ [i]) = some u := by
  induction is generalizing r with
  | nil =>
    obtain rfl := Option.some.inj ht
    exact follow_cons hu
  | cons j js ih =>
    obtain ⟨x, hx, ht⟩ := Option.bind_eq_some_iff.mp ht
    rw [List.cons_append, follow_cons hx]
    exact ih ht

theorem read_cons (h : R.next (word t i) = some u) :
    R.read word t (i :: is) j = R.read word u is j := by
  rw [read, follow_cons h, read]

theorem read_cons_none (h : R.next (word t i) = none) : R.read word t (i :: is) j = R.empty := by
  rw [read, follow, h, Option.bind_none, Option.elim_none]

/-- Nothing but `empty` is read under an empty table. -/
theorem read_of_empty (h : ∀ i, word t i = R.empty) : R.read word t is i = R.empty := by
  cases is with
  | nil => exact h i
  | cons j js => exact read_cons_none (by rw [h, R.next_empty])

/-- The first step of a path. -/
theorem inner_head (h : R.inner (p ++ i :: is)) : R.inner (p ++ [i]) := by
  rw [List.append_cons] at h
  exact R.inner_left _ _ h

namespace Labelled

/-- A path leads to the table with its label. -/
theorem follow (h : R.Labelled word path) (ht : path t = some p) (his : R.inner (p ++ is))
    (hu : R.follow word t is = some u) : path u = some (p ++ is) := by
  induction is generalizing t p with
  | nil =>
    rw [Radix.follow, Option.some.injEq] at hu
    rw [← hu, ht, List.append_nil]
  | cons i is ih =>
    obtain ⟨v, hv, hu⟩ := Option.bind_eq_some_iff.mp hu
    have hlabel := h.down t p i v ht (inner_head his) hv
    rw [List.append_cons] at his ⊢
    exact ih hlabel his hu

/-! ### A word at the end of a path -/

/-- The words on the ways to tables are not written. -/
theorem word_store (hw : Written path word word' t i v) (ht : path t = some p)
    (hleaf : ¬R.inner (p ++ [i])) (hr : path r = some q) (hj : R.inner (q ++ [j])) :
    word' r j = word r j := by
  refine hw.other r q j hr (not_and_or.mp ?_)
  rintro ⟨rfl, rfl⟩
  obtain rfl := Option.some.inj (ht.symm.trans hr)
  exact hleaf hj

theorem store (h : R.Labelled word path) (hw : Written path word word' t i v)
    (ht : path t = some p) (hleaf : ¬R.inner (p ++ [i])) : R.Labelled word' path := by
  refine ⟨fun u q j x hu hj hx => ?_, fun u q j x hu hj hx => ?_⟩
  · rw [word_store hw ht hleaf hu hj] at hx
    exact h.down u q j x hu hj hx
  · rw [word_store hw ht hleaf hu hj] at hx ⊢
    exact h.good u q j x hu hj hx

/-- The paths lead where they led. -/
theorem follow_store (h : R.Labelled word path) (hw : Written path word word' t i v)
    (ht : path t = some p) (hleaf : ¬R.inner (p ++ [i])) (hr : path r = some q)
    (hjs : R.inner (q ++ js)) : R.follow word' r js = R.follow word r js := by
  induction js generalizing r q with
  | nil => rfl
  | cons j js ih =>
    have hj := inner_head hjs
    rw [Radix.follow, Radix.follow, word_store hw ht hleaf hr hj]
    cases hnext : R.next (word r j) with
    | none => rfl
    | some x =>
      rw [List.append_cons] at hjs
      exact ih (h.down r q j x hr hj hnext) hjs

/-- What was written is read at the end of the path. -/
theorem read_store (h : R.Labelled word path) (hw : Written path word word' t i v)
    (ht : R.follow word r is = some t) (hr : path r = some []) (his : R.inner is)
    (hleaf : ¬R.inner (is ++ [i])) : R.read word' r is i = v := by
  have hlabel : path t = some is := h.follow hr his ht
  rw [read, h.follow_store hw hlabel hleaf hr his, ht]
  exact hw.self

/-- What is read elsewhere stays. -/
theorem read_store_of_ne (h : R.Labelled word path) (hw : Written path word word' t i v)
    (ht : path t = some is) (hleaf : ¬R.inner (is ++ [i])) (hr : path r = some [])
    (hjs : R.inner js) (hne : js ≠ is ∨ j ≠ i) : R.read word' r js j = R.read word r js j := by
  rw [read, read, h.follow_store hw ht hleaf hr hjs]
  cases hu : R.follow word r js with
  | none => rfl
  | some u =>
    have hlabel : path u = some js := h.follow hr hjs hu
    refine hw.other u js j hlabel (hne.imp_left fun hne => ?_)
    rintro rfl
    exact hne (Option.some.inj (hlabel.symm.trans ht))

/-! ### A new table -/

/-- An empty table is put in. -/
theorem grow [DecidableEq τ] (h : R.Labelled word path) (hw : Written path word word' t i v)
    (ht : path t = some p) (hi : R.inner (p ++ [i])) (hv : R.next v = some u) (hgood : R.good v)
    (hfresh : path u = none) (hempty : ∀ j, word' u j = R.empty) :
    R.Labelled word' (Function.update path u (some (p ++ [i]))) := by
  -- every word that leads on is the one that was written, or was there
  have hcases : ∀ x q j y, Function.update path u (some (p ++ [i])) x = some q →
      R.next (word' x j) = some y → (x = t ∧ j = i ∧ path t = some q) ∨
        (path x = some q ∧ word' x j = word x j) := by
    intro x q j y hx hy
    rcases update_some_cases hx with ⟨rfl, -⟩ | ⟨-, hx⟩
    · rw [hempty, R.next_empty] at hy
      cases hy
    by_cases hself : x = t ∧ j = i
    · exact .inl ⟨hself.1, hself.2, hself.1 ▸ hx⟩
    · exact .inr ⟨hx, hw.other x q j hx (not_and_or.mp hself)⟩
  refine ⟨fun x q j y hx hj hy => ?_, fun x q j y hx hj hy => ?_⟩
  · rcases hcases x q j y hx hy with ⟨rfl, rfl, hq⟩ | ⟨hq, hword⟩
    · rw [hw.self, hv, Option.some.injEq] at hy
      obtain rfl := Option.some.inj (ht.symm.trans hq)
      rw [← hy, Function.update_self]
    · rw [hword] at hy
      exact update_fresh hfresh (h.down x q j y hq hj hy)
  · rcases hcases x q j y hx hy with ⟨rfl, rfl, -⟩ | ⟨hq, hword⟩
    · rw [hw.self]
      exact hgood
    · rw [hword] at hy ⊢
      exact h.good x q j y hq hj hy

/-- A table gets a label; it may lead to tables that are there. -/
theorem addTable [DecidableEq τ] (h : R.Labelled word path) (hfresh : path u = none)
    (hother : ∀ t q j, path t = some q → word' t j = word t j)
    (hdown : ∀ i x, R.inner (p ++ [i]) → R.next (word' u i) = some x →
      path x = some (p ++ [i]) ∧ R.good (word' u i)) :
    R.Labelled word' (Function.update path u (some p)) := by
  refine ⟨fun x q j y hx hj hy => ?_, fun x q j y hx hj hy => ?_⟩
  · rcases update_some_cases hx with ⟨rfl, rfl⟩ | ⟨-, hq⟩
    · exact update_fresh hfresh (hdown j y hj hy).1
    · rw [hother x q j hq] at hy
      exact update_fresh hfresh (h.down x q j y hq hj hy)
  · rcases update_some_cases hx with ⟨rfl, rfl⟩ | ⟨-, hq⟩
    · exact (hdown j y hj hy).2
    · rw [hother x q j hq] at hy ⊢
      exact h.good x q j y hq hj hy

/-- The paths that led to tables lead to them. -/
theorem follow_grow (h : R.Labelled word path) (hw : Written path word word' t i v)
    (hnone : R.next (word t i) = none) (hr : path r = some q) (hjs : R.inner (q ++ js))
    (hx : R.follow word r js = some u) : R.follow word' r js = some u := by
  induction js generalizing r q with
  | nil => exact hx
  | cons j js ih =>
    obtain ⟨y, hy, hx⟩ := Option.bind_eq_some_iff.mp hx
    have hword : word' r j = word r j := by
      refine hw.other r q j hr (not_and_or.mp ?_)
      rintro ⟨rfl, rfl⟩
      rw [hnone] at hy
      cases hy
    have hlabel := h.down r q j y hr (inner_head hjs) hy
    rw [← hword] at hy
    rw [follow_cons hy]
    rw [List.append_cons] at hjs
    exact ih hlabel hjs hx

/-- What is read at the ends of paths stays. -/
theorem read_grow (h : R.Labelled word path) (hw : Written path word word' t i v)
    (ht : path t = some p) (hi : R.inner (p ++ [i])) (hnone : R.next (word t i) = none)
    (hv : R.next v = some u) (hempty : ∀ j, word' u j = R.empty) (hr : path r = some q)
    (hjs : R.inner (q ++ js)) (hk : ¬R.inner (q ++ js ++ [k])) :
    R.read word' r js k = R.read word r js k := by
  induction js generalizing r q with
  | nil =>
    rw [List.append_nil] at hk
    refine hw.other r q k hr (not_and_or.mp ?_)
    rintro ⟨rfl, rfl⟩
    obtain rfl := Option.some.inj (ht.symm.trans hr)
    exact hk hi
  | cons j js ih =>
    by_cases hself : r = t ∧ j = i
    · obtain ⟨rfl, rfl⟩ := hself
      rw [read_cons_none hnone, read_cons (u := u) (by rw [hw.self, hv]), read_of_empty hempty]
    have hword := hw.other r q j hr (not_and_or.mp hself)
    cases hnext : R.next (word r j) with
    | none => rw [read_cons_none hnext, read_cons_none (by rw [hword, hnext])]
    | some x =>
      rw [read_cons hnext, read_cons (u := x) (by rw [hword, hnext])]
      have hlabel := h.down r q j x hr (inner_head hjs) hnext
      rw [List.append_cons] at hjs
      rw [List.append_cons q j js] at hk
      exact ih hlabel hjs hk

end Labelled

end Radix

end PrismaticOS.Library
