import Mathlib.Algebra.Ring.Nat
import Mathlib.Data.List.Count
import PrismaticOS.Css.Parser

/-!
# Specificity

`css_selector_calculate_specificity` adds 1000 for an id, 100 for a class, an attribute or a
pseudo-class, and 10 for an element or a pseudo-element, in 32 bits. Ten of one kind are as much as
one of the next.

## What is proved

* `specificity_toNat` — the specificity of any chain of selectors is the sum of the weights, modulo
  2³².
* `specificity_order_iff` — two chains are ordered as their counts are exactly if the first count in
  which they differ is not outweighed by those behind it and by what is lost of the sums.
* `specificity_short_iff` — chains of up to nine selectors are, and longer ones not always.
-/

namespace PrismaticOS.Css

/-- How many ids, how many classes, attributes and pseudo-classes, and how many elements and
pseudo-elements there are. -/
structure Counts where
  /-- The ids. -/
  ids : ℕ
  /-- The classes, attributes and pseudo-classes. -/
  classes : ℕ
  /-- The elements and pseudo-elements. -/
  elements : ℕ

/-- The counts of a chain of selectors. -/
def counts (selectors : List CssSelector) : Counts where
  ids := selectors.countP fun s => s.type = .id
  classes := selectors.countP fun s =>
    s.type = .classOf ∨ s.type = .attribute ∨ s.type = .pseudoClass
  elements := selectors.countP fun s => s.type = .element ∨ s.type = .pseudoElement

namespace Counts

/-- The lexicographic order. -/
def Less (a b : Counts) : Prop :=
  a.ids < b.ids ∨ a.ids = b.ids ∧
    (a.classes < b.classes ∨ a.classes = b.classes ∧ a.elements < b.elements)

/-- The sum of the weights. -/
def weight (a : Counts) : ℕ := 1000 * a.ids + 100 * a.classes + 10 * a.elements

/-- What 32 bits lose of it. -/
def lost (a : Counts) : ℕ := 2 ^ 32 * (a.weight / 2 ^ 32)

/-- The weight by which the second is ahead in the first count in which the two differ. -/
def lead (a b : Counts) : ℤ :=
  if a.ids ≠ b.ids then 1000 * ((b.ids : ℤ) - a.ids)
  else if a.classes ≠ b.classes then 100 * ((b.classes : ℤ) - a.classes)
  else 10 * ((b.elements : ℤ) - a.elements)

/-- The weight by which the second is behind in the other counts, and in what it loses. -/
def lag (a b : Counts) : ℤ :=
  (if a.ids ≠ b.ids then
      100 * ((a.classes : ℤ) - b.classes) + 10 * ((a.elements : ℤ) - b.elements)
    else if a.classes ≠ b.classes then 10 * ((a.elements : ℤ) - b.elements)
    else 0) + ((b.lost : ℤ) - a.lost)

/-- The first count in which the two differ is not outweighed. -/
def Outweighs (a b : Counts) : Prop :=
  if 0 < lead a b then lag a b < lead a b else lead a b ≤ lag a b

variable {a b : Counts}

/-- Who is ahead in the first count is ahead. -/
theorem less_iff : a.Less b ↔ 0 < lead a b := by
  unfold Less lead
  split_ifs <;> omega

/-- Lead and lag are the difference of what 32 bits keep. -/
theorem lead_sub_lag :
    lead a b - lag a b = ((b.weight % 2 ^ 32 : ℕ) : ℤ) - (a.weight % 2 ^ 32 : ℕ) := by
  have ha : a.lost + a.weight % 2 ^ 32 = a.weight := Nat.div_add_mod a.weight (2 ^ 32)
  have hb : b.lost + b.weight % 2 ^ 32 = b.weight := Nat.div_add_mod b.weight (2 ^ 32)
  generalize a.weight % 2 ^ 32 = keptA at ha ⊢
  generalize b.weight % 2 ^ 32 = keptB at hb ⊢
  unfold weight at ha hb
  unfold lead lag
  split_ifs <;> omega

/-- What 32 bits keep is ordered as the counts if the first difference is not outweighed. -/
theorem kept_order_iff :
    (a.weight % 2 ^ 32 < b.weight % 2 ^ 32 ↔ a.Less b) ↔ Outweighs a b := by
  have hdiff := @lead_sub_lag a b
  rw [less_iff, Outweighs]
  split_ifs with hlead
  · omega
  · omega

end Counts

/-! ### The sum -/

/-- The counts of one more selector. -/
theorem counts_cons (s : CssSelector) (selectors : List CssSelector) : counts (s :: selectors) =
    { ids := (counts selectors).ids + if s.type = .id then 1 else 0
      classes := (counts selectors).classes +
        if s.type = .classOf ∨ s.type = .attribute ∨ s.type = .pseudoClass then 1 else 0
      elements := (counts selectors).elements +
        if s.type = .element ∨ s.type = .pseudoElement then 1 else 0 } := by
  simp only [counts, List.countP_cons, decide_eq_true_eq]

theorem counts_cons_weight (s : CssSelector) (selectors : List CssSelector) :
    (counts (s :: selectors)).weight = s.type.weight.toNat + (counts selectors).weight := by
  rw [counts_cons]
  cases s.type <;> simp [Counts.weight, CssSelectorType.weight] <;> omega

/-- **The specificity** is the sum of the weights, modulo 2³². -/
theorem specificity_toNat (selectors : List CssSelector) :
    (cssSelectorCalculateSpecificity selectors).toNat = (counts selectors).weight % 2 ^ 32 := by
  have hfold : ∀ start : UInt32,
      (selectors.foldl (fun specificity s => specificity + s.type.weight) start).toNat =
        (start.toNat + (counts selectors).weight) % 2 ^ 32 := by
    induction selectors with
    | nil =>
      intro start
      exact (Nat.mod_eq_of_lt start.toNat_lt).symm
    | cons s selectors ih =>
      intro start
      rw [List.foldl_cons, ih, UInt32.toNat_add, counts_cons_weight, Nat.mod_add_mod]
      congr 1
      omega
  have hstart := hfold 0
  rwa [UInt32.toNat_zero, Nat.zero_add] at hstart

/-! ### The order -/

/-- **The order of specificities** is that of the counts exactly if the first count in which two
chains differ is not outweighed. -/
theorem specificity_order_iff (a b : List CssSelector) :
    (cssSelectorCalculateSpecificity a < cssSelectorCalculateSpecificity b ↔
      (counts a).Less (counts b)) ↔ Counts.Outweighs (counts a) (counts b) := by
  rw [UInt32.lt_iff_toNat_lt, specificity_toNat, specificity_toNat]
  exact Counts.kept_order_iff

/-- No selector counts twice. -/
theorem counts_total_le (selectors : List CssSelector) :
    (counts selectors).ids + (counts selectors).classes + (counts selectors).elements ≤
      selectors.length := by
  induction selectors with
  | nil => exact le_rfl
  | cons s selectors ih =>
    rw [counts_cons, List.length_cons]
    cases s.type <;> simp <;> omega

/-- Ten elements and a class. -/
theorem elements_as_class :
    (counts (List.replicate 10 ⟨.element, none⟩)).Less (counts [⟨.classOf, none⟩]) ∧
      ¬ cssSelectorCalculateSpecificity (List.replicate 10 ⟨.element, none⟩) <
        cssSelectorCalculateSpecificity [⟨.classOf, none⟩] :=
  ⟨.inr ⟨rfl, .inl (by decide)⟩, by decide⟩

/-- **Up to nine selectors** every two chains are ordered as their counts; up to ten they are not. -/
theorem specificity_short_iff (n : ℕ) : (∀ a b : List CssSelector, a.length ≤ n → b.length ≤ n →
    (cssSelectorCalculateSpecificity a < cssSelectorCalculateSpecificity b ↔
      (counts a).Less (counts b))) ↔ n ≤ 9 := by
  constructor
  · intro h
    by_contra hn
    obtain ⟨hless, hnot⟩ := elements_as_class
    refine hnot ((h _ _ ?_ ?_).mpr hless)
    · simp only [List.length_replicate]
      omega
    · simp only [List.length_singleton]
      omega
  · intro hn a b ha hb
    have htotal := counts_total_le a
    have htotal' := counts_total_le b
    have hsmall : ∀ c : Counts, c.ids + c.classes + c.elements ≤ 9 →
        c.weight % 2 ^ 32 = c.weight := by
      intro c hc
      apply Nat.mod_eq_of_lt
      unfold Counts.weight
      omega
    rw [UInt32.lt_iff_toNat_lt, specificity_toNat, specificity_toNat, hsmall _ (by omega),
      hsmall _ (by omega), Counts.less_iff]
    unfold Counts.lead Counts.weight
    split_ifs <;> omega

/-- Ten elements are as specific as a class. -/
theorem ten_elements : ¬ ∀ a b : List CssSelector,
    (cssSelectorCalculateSpecificity a < cssSelectorCalculateSpecificity b ↔
      (counts a).Less (counts b)) := by
  intro h
  obtain ⟨hless, hnot⟩ := elements_as_class
  exact hnot ((h _ _).mpr hless)

end PrismaticOS.Css
