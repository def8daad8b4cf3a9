import Mathlib.Algebra.Notation.Defs
import Mathlib.Logic.Function.Basic
import Mathlib.Logic.Relation

/-!
# Parent pointers

Nodes with a pointer `up` to their parent, which is 0 for a node without one. The nodes are a
forest if from each of them the pointers lead to a node without a parent.

## What is proved

* `HasRoot.cut`, `HasRoot.link` — a node loses its parent, or gets one that is not below it.
* `not_hasRoot_of_loop` — a node that is above itself has no root.
-/

namespace PrismaticOS.Library

variable {α : Type*}

/-- The parents of a node lead to another one. -/
def LeadsTo (up : α → α) : α → α → Prop := Relation.ReflTransGen fun n p => up n = p

/-- The parents of a node lead to one that has none. -/
def HasRoot [Zero α] (up : α → α) (n : α) : Prop := ∃ root, LeadsTo up n root ∧ up root = 0

variable {up up' : α → α} {n p c v root : α}

/-- A way to a node does not use the pointer of the node. -/
theorem LeadsTo.update [DecidableEq α] (h : LeadsTo up p c) (v : α) :
    LeadsTo (Function.update up c v) p c := by
  induction h using Relation.ReflTransGen.head_induction_on with
  | refl => exact .refl
  | @head n m hstep _ ih =>
    by_cases hn : n = c
    · rw [hn]
      exact .refl
    · refine .head ?_ ih
      rw [Function.update_of_ne hn, hstep]

/-- What is above a node that is above itself is below it, too. -/
theorem LeadsTo.back (h : LeadsTo up (up n) n) (habove : LeadsTo up n p) :
    LeadsTo up (up p) n := by
  induction habove with
  | refl => exact h
  | tail _ hstep ih =>
    rw [hstep] at ih
    rcases Relation.ReflTransGen.cases_head ih with rfl | ⟨_, rfl, hup⟩
    · exact h
    · exact hup

/-- Of two nodes above the same one, one is above the other. -/
theorem LeadsTo.total (h : LeadsTo up n p) (h' : LeadsTo up n c) : LeadsTo up p c ∨ LeadsTo up c p :=
  Relation.ReflTransGen.total_of_right_unique (fun _ _ _ h₁ h₂ => h₁.symm.trans h₂) h h'

/-- A node below one with the same parent is below itself. -/
theorem LeadsTo.of_sibling (h : LeadsTo up n c) (hsame : up n = up c) (hne : n ≠ c) :
    LeadsTo up (up c) c := by
  rcases Relation.ReflTransGen.cases_head h with heq | ⟨_, rfl, hup⟩
  · exact absurd heq hne
  · exact hsame ▸ hup

variable [Zero α]

theorem HasRoot.of_up (h : HasRoot up (up n)) : HasRoot up n := by
  obtain ⟨root, hleads, hroot⟩ := h
  exact ⟨root, .head rfl hleads, hroot⟩

/-- Pointers that are not on the way do not matter. -/
theorem HasRoot.congr (h : HasRoot up n) (hsame : ∀ m, LeadsTo up n m → up' m = up m) :
    HasRoot up' n := by
  obtain ⟨root, hleads, hroot⟩ := h
  induction hleads using Relation.ReflTransGen.head_induction_on with
  | refl => exact ⟨root, .refl, (hsame root .refl).trans hroot⟩
  | @head n m hstep _ ih =>
    apply HasRoot.of_up
    rw [hsame n .refl, hstep]
    exact ih fun k hk => hsame k (.head hstep hk)

/-- **A node loses its parent.** -/
theorem HasRoot.cut [DecidableEq α] (h : HasRoot up n) (c : α) :
    HasRoot (Function.update up c 0) n := by
  obtain ⟨root, hleads, hroot⟩ := h
  induction hleads using Relation.ReflTransGen.head_induction_on with
  | refl =>
    refine ⟨root, .refl, ?_⟩
    rw [Function.update_apply, hroot, ite_self]
  | @head n m hstep _ ih =>
    by_cases hn : n = c
    · exact ⟨n, .refl, by rw [hn, Function.update_self]⟩
    · apply HasRoot.of_up
      rwa [Function.update_of_ne hn, hstep]

/-- **A node gets a parent** that is not below it. -/
theorem HasRoot.link [DecidableEq α] (h : HasRoot up n) (hp : HasRoot up p)
    (hno : ¬ LeadsTo up p c) : HasRoot (Function.update up c p) n := by
  have hp' : HasRoot (Function.update up c p) p := by
    refine hp.congr fun m hm => Function.update_of_ne ?_ ..
    rintro rfl
    exact hno hm
  obtain ⟨root, hleads, hroot⟩ := h
  induction hleads using Relation.ReflTransGen.head_induction_on with
  | refl =>
    by_cases hc : root = c
    · apply HasRoot.of_up
      rwa [hc, Function.update_self]
    · exact ⟨root, .refl, by rw [Function.update_of_ne hc, hroot]⟩
  | @head n m hstep _ ih =>
    apply HasRoot.of_up
    by_cases hn : n = c
    · rwa [hn, Function.update_self]
    · rwa [Function.update_of_ne hn, hstep]

/-- Nothing is above 0. -/
theorem leadsTo_zero (hnull : up 0 = 0) (h : LeadsTo up 0 n) : n = 0 := by
  induction h with
  | refl => rfl
  | tail _ hstep ih => rw [← hstep, ih, hnull]

/-- **A node above itself** has no root. -/
theorem not_hasRoot_of_loop (hnull : up 0 = 0) (hn : n ≠ 0) (h : LeadsTo up (up n) n) :
    ¬ HasRoot up n := by
  rintro ⟨root, hleads, hroot⟩
  have hback := h.back hleads
  rw [hroot] at hback
  exact hn (leadsTo_zero hnull hback)

end PrismaticOS.Library
