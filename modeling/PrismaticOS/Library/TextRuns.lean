import Mathlib.Data.List.TakeWhile

/-!
# Runs of a text

The maximal runs of the positions with some property (`IsRun`), and the runs of a text between
delimiters in order (`TextRuns`), as a reader finds them that skips delimiters and then reads to the
next one.

## What is proved

* `exists_textRuns` — every text has its runs.
* `TextRuns.mem_iff` — they are the maximal runs of positions without a delimiter.
* `TextRuns.pairwise` — they are in order, with a position between them.
-/

namespace PrismaticOS.Library

/-- A maximal run of positions: it is not empty, and neither is the position before it nor the one
behind it one of them. -/
structure IsRun (N : ℕ → Prop) (start len : ℕ) : Prop where
  /-- It is not empty. -/
  pos : 0 < len
  /-- All of its positions. -/
  inside : ∀ i < len, N (start + i)
  /-- The position behind it. -/
  after : ¬ N (start + len)
  /-- The position before it. -/
  before : ∀ j, j + 1 = start → ¬ N j

section
variable {N : ℕ → Prop} {a l start len : ℕ}

/-- The runs are the first one, and those farther on. -/
theorem isRun_split (hgap : ∀ i < a, ¬ N i) (hl : 0 < l) (hrun : ∀ i < l, N (a + i))
    (hend : ¬ N (a + l)) :
    IsRun N start len ↔ (start = a ∧ len = l) ∨
      ∃ s, start = a + l + 1 + s ∧ IsRun (fun i => N (a + l + 1 + i)) s len := by
  constructor
  · intro h
    have hfirst : N start := h.inside 0 h.pos
    rcases lt_trichotomy start a with hlt | rfl | hgt
    · exact absurd hfirst (hgap start hlt)
    · refine .inl ⟨rfl, le_antisymm ?_ ?_⟩
      · by_contra hlen
        exact hend (h.inside l (Nat.lt_of_not_le hlen))
      · by_contra hlen
        exact h.after (hrun len (Nat.lt_of_not_le hlen))
    · -- inside the first run there is a position before it, and at its end there is none
      have hbeyond : a + l < start := by
        by_contra hle
        rcases Nat.lt_or_eq_of_le (Nat.le_of_not_lt hle) with hin | heq
        · obtain ⟨i, rfl⟩ := Nat.exists_eq_add_of_lt hgt
          exact h.before (a + i) rfl (hrun i (by omega))
        · exact hend (heq ▸ hfirst)
      obtain ⟨s, rfl⟩ := Nat.exists_eq_add_of_le (Nat.succ_le_of_lt hbeyond)
      refine .inr ⟨s, rfl, h.pos, fun i hi => ?_, ?_, fun j hj => ?_⟩
      · rw [← Nat.add_assoc]
        exact h.inside i hi
      · rw [← Nat.add_assoc]
        exact h.after
      · exact h.before _ (by omega)
  · rintro (⟨rfl, rfl⟩ | ⟨s, rfl, h⟩)
    · exact ⟨hl, hrun, hend, fun j hj => hgap j (by omega)⟩
    · refine ⟨h.pos, fun i hi => ?_, ?_, fun j hj => ?_⟩
      · rw [Nat.add_assoc]
        exact h.inside i hi
      · rw [Nat.add_assoc]
        exact h.after
      · cases s with
        | zero => rwa [show j = a + l by omega]
        | succ s =>
          rw [show j = a + l + 1 + s by omega]
          exact h.before s rfl

end

/-! ### Texts with delimiters -/

/-- The positions of a text that are no delimiters. -/
def Plain {α : Type*} (delims text : List α) (i : ℕ) : Prop := ∃ c, text[i]? = some c ∧ c ∉ delims

/-- The runs of a text that begins at position `o`, as pairs of a start and a length. -/
inductive TextRuns {α : Type*} (delims : List α) : ℕ → List α → List (ℕ × ℕ) → Prop
  /-- There are delimiters only. -/
  | none {o : ℕ} {text : List α} (htext : ∀ c ∈ text, c ∈ delims) : TextRuns delims o text []
  /-- Delimiters, a run, and what is behind the delimiter that ends it. -/
  | run {o : ℕ} {gap token more : List α} {rs : List (ℕ × ℕ)} (hgap : ∀ c ∈ gap, c ∈ delims)
      (hne : token ≠ []) (htoken : ∀ c ∈ token, c ∉ delims) (hmore : ∀ c ∈ more.head?, c ∈ delims) :
      TextRuns delims (o + gap.length + token.length + 1) more.tail rs →
        TextRuns delims o (gap ++ (token ++ more)) ((o + gap.length, token.length) :: rs)

section
variable {α : Type*} {delims text gap token more : List α} {o : ℕ} {rs : List (ℕ × ℕ)}

/-- What is read up to the next symbol with a property. -/
theorem exists_span (P : α → Prop) (text : List α) :
    ∃ head rest, text = head ++ rest ∧ (∀ c ∈ head, ¬ P c) ∧ ∀ c ∈ rest.head?, P c := by
  induction text with
  | nil => exact ⟨[], [], rfl, nofun, nofun⟩
  | cons c text ih =>
    by_cases hc : P c
    · refine ⟨[], c :: text, rfl, nofun, fun d hd => ?_⟩
      rwa [← Option.some.inj hd]
    · obtain ⟨head, rest, rfl, hhead, hrest⟩ := ih
      exact ⟨c :: head, rest, rfl, List.forall_mem_cons.mpr ⟨hc, hhead⟩, hrest⟩

/-- **Every text has its runs.** -/
theorem exists_textRuns (delims : List α) (o : ℕ) (text : List α) :
    ∃ rs, TextRuns delims o text rs := by
  induction hn : text.length using Nat.strongRecOn generalizing o text with
  | ind n ih =>
    obtain ⟨gap, rest, rfl, hgap, hrest⟩ := exists_span (· ∉ delims) text
    simp only [not_not] at hgap
    obtain ⟨token, more, rfl, htoken, hmore⟩ := exists_span (· ∈ delims) rest
    rcases token with - | ⟨c, token⟩
    · -- the rest would begin with a delimiter
      cases more with
      | nil => exact ⟨[], .none (by simpa using hgap)⟩
      | cons d more => exact absurd (hmore d rfl) (hrest d rfl)
    · simp only [List.length_append, List.length_cons] at hn
      have htail : more.tail.length < n := by
        rw [List.length_tail]
        omega
      obtain ⟨rs, hrs⟩ := ih _ htail _ more.tail rfl
      exact ⟨_, .run hgap (List.cons_ne_nil c token) htoken hmore hrs⟩

theorem plain_gap (hgap : ∀ c ∈ gap, c ∈ delims) {i : ℕ} (hi : i < gap.length) :
    ¬ Plain delims (gap ++ text) i := by
  rintro ⟨c, hc, hnot⟩
  rw [List.getElem?_append_left hi] at hc
  exact hnot (hgap c (List.mem_of_getElem? hc))

theorem plain_token (htoken : ∀ c ∈ token, c ∉ delims) {i : ℕ} (hi : i < token.length) :
    Plain delims (gap ++ (token ++ more)) (gap.length + i) := by
  refine ⟨token[i], ?_, htoken _ (List.getElem_mem hi)⟩
  rw [List.getElem?_append_right (Nat.le_add_right ..), Nat.add_sub_cancel_left,
    List.getElem?_append_left hi, List.getElem?_eq_getElem hi]

theorem getElem?_more (i : ℕ) :
    (gap ++ (token ++ more))[gap.length + token.length + i]? = more[i]? := by
  rw [List.getElem?_append_right (by omega), List.getElem?_append_right (by omega)]
  congr 1
  omega

theorem plain_end (hmore : ∀ c ∈ more.head?, c ∈ delims) :
    ¬ Plain delims (gap ++ (token ++ more)) (gap.length + token.length) := by
  rintro ⟨c, hc, hnot⟩
  have hfirst : (gap ++ (token ++ more))[gap.length + token.length + 0]? = more[0]? :=
    getElem?_more 0
  rw [Nat.add_zero, hc, ← List.head?_eq_getElem?] at hfirst
  exact hnot (hmore c hfirst.symm)

theorem plain_more (i : ℕ) :
    Plain delims (gap ++ (token ++ more)) (gap.length + token.length + 1 + i) ↔
      Plain delims more.tail i := by
  unfold Plain
  rw [Nat.add_assoc _ 1, getElem?_more, List.getElem?_tail, Nat.add_comm 1]

namespace TextRuns

/-- The runs are in the text. -/
theorem le_start (h : TextRuns delims o text rs) : ∀ r ∈ rs, o ≤ r.1 := by
  induction h with
  | none htext => exact nofun
  | run hgap hne htoken hmore hrest ih =>
    refine List.forall_mem_cons.mpr ⟨Nat.le_add_right .., fun r hr => ?_⟩
    have hle := ih r hr
    omega

/-- **The runs are the maximal ones**, counted from the start of the text. -/
theorem mem_iff (h : TextRuns delims o text rs) {start len : ℕ} :
    (o + start, len) ∈ rs ↔ IsRun (Plain delims text) start len := by
  induction h generalizing start with
  | none htext =>
    refine iff_of_false List.not_mem_nil fun hrun => ?_
    obtain ⟨c, hc, hnot⟩ := hrun.inside 0 hrun.pos
    exact hnot (htext c (List.mem_of_getElem? hc))
  | @run o gap token more rs hgap hne htoken hmore hrest ih =>
    have hsplit : IsRun (Plain delims (gap ++ (token ++ more))) start len ↔ _ :=
      isRun_split (fun i hi => plain_gap hgap hi) (List.length_pos_iff.mpr hne)
        (fun i hi => plain_token htoken hi) (plain_end hmore)
    simp only [plain_more] at hsplit
    rw [hsplit, List.mem_cons, Prod.mk.injEq, Nat.add_left_cancel_iff]
    refine or_congr_right ⟨fun hmem => ?_, ?_⟩
    · have hle := hrest.le_start _ hmem
      obtain ⟨s, hs⟩ := Nat.exists_eq_add_of_le hle
      refine ⟨s, by omega, ih.mp ?_⟩
      rwa [← hs]
    · rintro ⟨s, rfl, hrun⟩
      have hmem := ih.mpr hrun
      rwa [show o + gap.length + token.length + 1 + s = o + (gap.length + token.length + 1 + s) by
        omega] at hmem

/-- A run ends before the next one begins. -/
theorem pairwise (h : TextRuns delims o text rs) : rs.Pairwise fun a b => a.1 + a.2 < b.1 := by
  induction h with
  | none htext => exact .nil
  | run hgap hne htoken hmore hrest ih =>
    exact List.pairwise_cons.mpr ⟨fun r hr => Nat.lt_of_succ_le (hrest.le_start r hr), ih⟩

end TextRuns

end

end PrismaticOS.Library
