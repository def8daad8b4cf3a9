import Mathlib.Data.List.Basic
import Mathlib.Data.List.Nodup
import Mathlib.Logic.Function.Basic
import Mathlib.Algebra.Ring.Nat
import Mathlib.Order.Interval.Finset.Nat

/-!
# Linked lists in memory

Pointer lists as C programs keep them: a node is a pointer, `0` is `NULL`, and the
links are functions from pointers to pointers (the field `next` of every node, and
`prev` for a doubly linked list). `Seg next p xs q` says that the links lead from
`p` through exactly the nodes `xs` to `q`; a list from head `p` is a segment to
`NULL`, so being one says that the walk ends.

## What is proved

* `Seg.append`, `Seg.congr` — segments are cut and joined, and depend on the links
  of their own nodes only.
* `Seg.unique`, `Seg.nodup` — a head has at most one list, and it has no node twice.
* `IsDList.push`, `IsDList.concat`, `IsDList.unlink` — the edits of a doubly linked list:
  a new node in front or at the end, and a node taken out by joining its neighbours.
* `IsDList.seg_reverse` — read backwards from its last node, it is the reverse.
-/

namespace PrismaticOS.Library

variable {α : Type*} [Zero α]

/-- The links `next` lead from `p` through exactly the nodes of the list, none of
them `NULL`, and on to `q`. -/
def Seg (next : α → α) : α → List α → α → Prop
  | p, [], q => p = q
  | p, x :: xs, q => p = x ∧ x ≠ 0 ∧ Seg next (next x) xs q

@[simp] theorem seg_nil {next : α → α} {p q : α} : Seg next p [] q ↔ p = q := Iff.rfl

@[simp] theorem seg_cons {next : α → α} {p q x : α} {xs : List α} :
    Seg next p (x :: xs) q ↔ p = x ∧ x ≠ 0 ∧ Seg next (next x) xs q := Iff.rfl

/-- A list of different pointers below `n`, none of them `NULL`, has fewer than `n` of them. -/
theorem pointers_length_lt {xs : List ℕ} {n : ℕ} (hnd : xs.Nodup) (hne : ∀ x ∈ xs, x ≠ 0)
    (hlt : ∀ x ∈ xs, x < n) (hn : 0 < n) : xs.length < n := by
  have hsub : xs.toFinset ⊆ Finset.Ioo 0 n := by
    intro x hx
    rw [List.mem_toFinset] at hx
    exact Finset.mem_Ioo.mpr ⟨Nat.pos_of_ne_zero (hne x hx), hlt x hx⟩
  have hcard := Finset.card_le_card hsub
  rw [List.toFinset_card_of_nodup hnd, Nat.card_Ioo] at hcard
  omega

namespace Seg

variable {next next' : α → α} {p q x : α} {xs ys : List α}

/-- A segment is cut at any of its nodes. -/
theorem append : Seg next p (xs ++ ys) q ↔ ∃ r, Seg next p xs r ∧ Seg next r ys q := by
  induction xs generalizing p with
  | nil => simp
  | cons x xs ih =>
    simp only [List.cons_append, seg_cons, ih]
    constructor
    · rintro ⟨hp, hx, r, hxs, hys⟩
      exact ⟨r, ⟨hp, hx, hxs⟩, hys⟩
    · rintro ⟨r, ⟨hp, hx, hxs⟩, hys⟩
      exact ⟨hp, hx, r, hxs, hys⟩

/-- A segment depends on the links of its own nodes only. -/
theorem congr (h : Seg next p xs q) (hn : ∀ y ∈ xs, next' y = next y) : Seg next' p xs q := by
  induction xs generalizing p with
  | nil => exact h
  | cons x xs ih =>
    obtain ⟨hp, hx, h⟩ := h
    refine ⟨hp, hx, ?_⟩
    rw [hn x List.mem_cons_self]
    exact ih h fun y hy => hn y (List.mem_cons_of_mem x hy)

theorem ne_zero (h : Seg next p xs q) (hx : x ∈ xs) : x ≠ 0 := by
  induction xs generalizing p with
  | nil => cases hx
  | cons y ys ih =>
    obtain ⟨-, hy, h⟩ := h
    rcases List.mem_cons.mp hx with rfl | hx
    · exact hy
    · exact ih h hx

/-- A head has at most one list. -/
theorem unique (h : Seg next p xs 0) (h' : Seg next p ys 0) : xs = ys := by
  induction xs generalizing p ys with
  | nil =>
    cases ys with
    | nil => rfl
    | cons y ys => exact absurd (h'.1.symm.trans h) h'.2.1
  | cons x xs ih =>
    cases ys with
    | nil => exact absurd (h.1.symm.trans h') h.2.1
    | cons y ys =>
      obtain ⟨rfl, -, h⟩ := h
      obtain ⟨rfl, -, h'⟩ := h'
      rw [ih h h']

/-- The list from a node of a list is the rest of that list. -/
theorem of_append (h : Seg next p (xs ++ x :: ys) 0) : Seg next x (x :: ys) 0 := by
  obtain ⟨r, -, h⟩ := append.mp h
  obtain ⟨rfl, hx, h⟩ := h
  exact ⟨rfl, hx, h⟩

/-- A list has no node twice: from the second one on, the walk would never end. -/
theorem nodup (h : Seg next p xs 0) : xs.Nodup := by
  induction xs generalizing p with
  | nil => exact List.nodup_nil
  | cons x xs ih =>
    refine List.nodup_cons.mpr ⟨fun hx => ?_, ih h.2.2⟩
    obtain ⟨s, t, rfl⟩ := List.append_of_mem hx
    have hwhole : Seg next x (x :: (s ++ x :: t)) 0 := ⟨rfl, h.2.1, h.2.2⟩
    have hpart : Seg next x (x :: t) 0 :=
      of_append (show Seg next x ((x :: s) ++ x :: t) 0 from hwhole)
    have hlen := congrArg List.length (unique hwhole hpart)
    simp only [List.length_cons, List.length_append] at hlen
    omega

/-- The head of a list is its first node, or `NULL`. -/
theorem headD (h : Seg next p xs 0) : p = xs.headD 0 := by
  cases xs with
  | nil => exact h
  | cons x xs => exact h.1

/-- The head of a list that is not `NULL` is its first node. -/
theorem head_mem (h : Seg next p xs 0) (hp : p ≠ 0) : p ∈ xs := by
  cases xs with
  | nil => exact absurd h hp
  | cons x xs => rw [h.1]; exact List.mem_cons_self

/-- A node that a walk passes is on the list. -/
theorem mem_of_walk (h : Seg next p xs 0) (hw : Seg next p (ys ++ [x]) q) : x ∈ xs := by
  induction ys generalizing p xs with
  | nil =>
    obtain ⟨rfl, hx, -⟩ := hw
    exact h.head_mem hx
  | cons y ys ih =>
    obtain ⟨rfl, hy, hw⟩ := hw
    cases xs with
    | nil => exact absurd h hy
    | cons z xs =>
      obtain ⟨rfl, -, h⟩ := h
      exact List.mem_cons_of_mem _ (ih h hw)

/-- A list does not lead back to its head. -/
theorem no_cycle (h : Seg next p xs 0) (hw : Seg next p ys p) : ys = [] := by
  cases ys with
  | nil => rfl
  | cons y ys =>
    have hlong : ∀ zs, Seg next p zs 0 → Seg next p (y :: ys ++ zs) 0 := fun zs hz =>
      append.mpr ⟨p, hw, hz⟩
    have hlen := congrArg List.length (unique h (hlong xs h))
    simp only [List.length_append, List.length_cons] at hlen
    omega

/-- A list of pointers below `n` has fewer than `n` nodes. -/
theorem length_lt {next : ℕ → ℕ} {p n : ℕ} {xs : List ℕ} (h : Seg next p xs 0)
    (hlt : ∀ x ∈ xs, x < n) (hn : 0 < n) : xs.length < n :=
  pointers_length_lt h.nodup (fun _ hx => h.ne_zero hx) hlt hn

theorem eq_nil_iff (h : Seg next p xs 0) : xs = [] ↔ p = 0 := by
  constructor
  · rintro rfl
    exact h
  · intro hp
    by_contra hne
    obtain ⟨x, ys, rfl⟩ := List.exists_cons_of_ne_nil hne
    exact h.2.1 (h.1 ▸ hp)

/-- A segment has one head. -/
theorem head_iff (h : Seg next p xs q) {r : α} : Seg next r xs q ↔ r = p := by
  constructor
  · intro hr
    cases xs with
    | nil => exact hr.trans h.symm
    | cons x xs => exact hr.1.trans h.1.symm
  · rintro rfl
    exact h

/-- The link of a node of a list cannot be another one. -/
theorem update_iff [DecidableEq α] (h : Seg next p xs 0) (hx : x ∈ xs) {v : α} :
    Seg (Function.update next x v) p xs 0 ↔ v = next x := by
  constructor
  · intro h'
    obtain ⟨l, r, rfl⟩ := List.append_of_mem hx
    have hxr : x ∉ r := (List.nodup_cons.mp (List.nodup_append.mp h.nodup).2.1).1
    obtain ⟨-, -, hr⟩ := h.of_append
    obtain ⟨-, -, hr'⟩ := h'.of_append
    rw [Function.update_self] at hr'
    refine (head_iff hr).mp (hr'.congr fun y hy => (Function.update_of_ne ?_ ..).symm)
    rintro rfl
    exact hxr hy
  · rintro rfl
    rwa [Function.update_eq_self]

end Seg

/-! ### Doubly linked lists -/

/-- The links `prev` lead back: the first node to `p`, every other to the one before it. -/
def Back (prev : α → α) : α → List α → Prop
  | _, [] => True
  | p, x :: xs => prev x = p ∧ Back prev x xs

omit [Zero α] in
@[simp] theorem back_nil {prev : α → α} {p : α} : Back prev p [] := trivial

omit [Zero α] in
@[simp] theorem back_cons {prev : α → α} {p x : α} {xs : List α} :
    Back prev p (x :: xs) ↔ prev x = p ∧ Back prev x xs := Iff.rfl

omit [Zero α] in
theorem Back.congr {prev prev' : α → α} {p : α} {xs : List α} (h : Back prev p xs)
    (hp : ∀ y ∈ xs, prev' y = prev y) : Back prev' p xs := by
  induction xs generalizing p with
  | nil => trivial
  | cons x xs ih =>
    exact ⟨(hp x List.mem_cons_self).trans h.1, ih h.2 fun y hy => hp y (List.mem_cons_of_mem x hy)⟩

omit [Zero α] in
/-- Back links of a list cut before one of its nodes. -/
theorem Back.append {prev : α → α} {p x : α} {xs ys : List α} :
    Back prev p (xs ++ x :: ys) ↔
      Back prev p xs ∧ prev x = xs.getLastD p ∧ Back prev x ys := by
  induction xs generalizing p with
  | nil => simp
  | cons y xs ih =>
    simp only [List.cons_append, back_cons, ih, List.getLastD_cons, and_assoc]

/-- A well-formed doubly linked list with head `head` and nodes `xs`. -/
structure IsDList (next prev : α → α) (head : α) (xs : List α) : Prop where
  /-- The forward links lead through the nodes to `NULL`. -/
  seg : Seg next head xs 0
  /-- The backward links lead back, from the first node to `NULL`. -/
  back : Back prev 0 xs

namespace IsDList

variable {next prev next' prev' : α → α} {head x y : α} {xs l r : List α}

theorem nil : IsDList next prev 0 [] := ⟨rfl, trivial⟩

theorem nodup (h : IsDList next prev head xs) : xs.Nodup := h.seg.nodup

/-- A doubly linked list depends on the links of its own nodes only. -/
theorem congr (h : IsDList next prev head xs) (hn : ∀ y ∈ xs, next' y = next y)
    (hp : ∀ y ∈ xs, prev' y = prev y) : IsDList next' prev' head xs :=
  ⟨h.seg.congr hn, h.back.congr hp⟩

/-- The first node is the one without a predecessor. -/
theorem prev_eq_zero_iff (h : IsDList next prev head xs) (hx : x ∈ xs) : prev x = 0 ↔ x = head := by
  obtain ⟨l, r, rfl⟩ := List.append_of_mem hx
  obtain ⟨-, hpx, -⟩ := Back.append.mp h.back
  cases l with
  | nil => exact ⟨fun _ => h.seg.1.symm, fun _ => hpx⟩
  | cons w l =>
    rw [hpx, List.getLastD_cons]
    have hmem : l.getLastD w ∈ w :: l := by
      rw [List.getLastD_eq_getLast?]
      cases hl : l.getLast? with
      | none => simp
      | some v => exact List.mem_cons_of_mem w (List.mem_of_getLast? hl)
    have hne : l.getLastD w ≠ 0 := h.seg.ne_zero (List.mem_append_left _ hmem)
    have hxw : x ≠ head := by
      intro he
      have hnd := h.nodup
      rw [List.cons_append, List.nodup_cons] at hnd
      exact hnd.1 (by rw [← h.seg.1, ← he]; simp)
    exact ⟨fun h => absurd h hne, fun h => absurd h hxw⟩

variable [DecidableEq α]

/-- **A new node in front**: it points at the old head and back at `NULL`, and the
old head, if there is one, points back at it. -/
theorem push (h : IsDList next prev head xs) (hx : x ∉ xs) (hx0 : x ≠ 0) (hnx : next' x = head)
    (hn : ∀ y ∈ xs, next' y = next y) (hpx : prev' x = 0)
    (hp : ∀ y ∈ xs, prev' y = if y = head then x else prev y) : IsDList next' prev' x (x :: xs) := by
  refine ⟨⟨rfl, hx0, hnx ▸ h.seg.congr hn⟩, hpx, ?_⟩
  cases xs with
  | nil => trivial
  | cons y ys =>
    have hhead : head = y := h.seg.1
    refine ⟨(hp y List.mem_cons_self).trans (if_pos hhead.symm), h.back.2.congr fun z hz => ?_⟩
    rw [hp z (List.mem_cons_of_mem y hz), if_neg]
    rintro rfl
    exact (List.nodup_cons.mp h.nodup).1 (hhead ▸ hz)

omit [DecidableEq α] in
/-- The last node is on the list. -/
theorem getLastD_mem (hne : xs ≠ []) : xs.getLastD 0 ∈ xs := by
  obtain ⟨l, w, rfl⟩ := (List.eq_nil_or_concat xs).resolve_left hne
  simp

omit [DecidableEq α] in
theorem next_mid (h : IsDList next prev head (l ++ x :: r)) : next x = r.headD 0 := by
  obtain ⟨-, -, hr⟩ := h.seg.of_append
  cases r with
  | nil => exact hr
  | cons y r => exact hr.1

omit [DecidableEq α] in
/-- Read from its last node, a list is reversed. -/
theorem seg_reverse (h : IsDList next prev head xs) :
    Seg prev (xs.getLastD 0) xs.reverse 0 := by
  have hback := h.back
  have hne : ∀ x ∈ xs, x ≠ 0 := fun x hx => h.seg.ne_zero hx
  clear h
  induction xs using List.reverseRecOn with
  | nil => rfl
  | append_singleton l x ih =>
    obtain ⟨hl, hx, -⟩ := Back.append.mp hback
    rw [List.getLastD_concat, List.reverse_append]
    refine ⟨rfl, hne x (by simp), hx ▸ ih hl fun y hy => hne y (by simp [hy])⟩

/-- Pointing the last node of a segment elsewhere leads it elsewhere. -/
theorem seg_update_last {w p v q : α} (h : Seg next p (l ++ [w]) q) (hw : w ∉ l) :
    Seg (Function.update next w v) p (l ++ [w]) v := by
  obtain ⟨s, hl, hs⟩ := Seg.append.mp h
  refine Seg.append.mpr ⟨s, hl.congr fun y hy => Function.update_of_ne ?_ _ _, hs.1, hs.2.1, ?_⟩
  · rintro rfl
    exact hw hy
  · exact Function.update_self ..

/-- **A new node at the end**: the last node points at it, and it points back at the last
node. -/
theorem concat (h : IsDList next prev head xs) (hx : x ∉ xs) (hx0 : x ≠ 0)
    (hn : ∀ y ∈ xs, next' y = if y = xs.getLastD 0 then x else next y) (hnx : next' x = 0)
    (hpx : prev' x = xs.getLastD 0) (hp : ∀ y ∈ xs, prev' y = prev y) :
    IsDList next' prev' (if xs = [] then x else head) (xs ++ [x]) := by
  refine ⟨?_, Back.append.mpr ⟨h.back.congr hp, hpx, trivial⟩⟩
  rcases List.eq_nil_or_concat xs with rfl | ⟨l, w, rfl⟩
  · exact ⟨rfl, hx0, hnx⟩
  · rw [List.concat_eq_append] at *
    have hwl : w ∉ l := by
      have hnd := h.nodup
      simp only [List.nodup_append, List.mem_singleton] at hnd
      exact fun hw => hnd.2.2 w hw w rfl rfl
    rw [if_neg (by simp)]
    refine Seg.append.mpr ⟨x, ?_, rfl, hx0, hnx⟩
    refine (seg_update_last h.seg hwl).congr fun y hy => ?_
    rw [hn y hy, List.getLastD_concat, Function.update_apply]

/-- The head after `x` is unlinked: `x`'s successor if `x` was the first. -/
def unlinkHead (next prev : α → α) (head x : α) : α := if prev x ≠ 0 then head else next x

/-- The forward links after `x` is unlinked: its predecessor points past it. -/
def unlinkNext (next prev : α → α) (x : α) : α → α :=
  if prev x ≠ 0 then Function.update next (prev x) (next x) else next

/-- The backward links after `x` is unlinked: its successor points back past it. -/
def unlinkPrev (next prev : α → α) (x : α) : α → α :=
  if next x ≠ 0 then Function.update prev (next x) (prev x) else prev

omit [DecidableEq α] in
theorem prev_mid (h : IsDList next prev head (l ++ x :: r)) : prev x = l.getLastD 0 :=
  (Back.append.mp h.back).2.1

omit [DecidableEq α] in
/-- A predecessor is on the list. -/
theorem prev_mem (h : IsDList next prev head xs) (hx : x ∈ xs) (h0 : prev x ≠ 0) : prev x ∈ xs := by
  obtain ⟨l, r, rfl⟩ := List.append_of_mem hx
  have hp := h.prev_mid
  rcases List.eq_nil_or_concat l with rfl | ⟨l, w, rfl⟩
  · exact absurd hp h0
  · rw [hp]
    simp

omit [DecidableEq α] in
/-- A successor is on the list. -/
theorem next_mem (h : IsDList next prev head xs) (hx : x ∈ xs) (h0 : next x ≠ 0) : next x ∈ xs := by
  obtain ⟨l, r, rfl⟩ := List.append_of_mem hx
  have hn := h.next_mid
  cases r with
  | nil => exact absurd hn h0
  | cons y r =>
    rw [hn]
    simp

omit [DecidableEq α] in
/-- No node is its own predecessor. -/
theorem prev_ne (h : IsDList next prev head xs) (hx : x ∈ xs) : prev x ≠ x := by
  obtain ⟨l, r, rfl⟩ := List.append_of_mem hx
  have hp := h.prev_mid
  have hnd := h.nodup
  rcases List.eq_nil_or_concat l with rfl | ⟨l, w, rfl⟩
  · rw [hp]
    exact (h.seg.ne_zero hx).symm
  · intro he
    rw [hp, List.concat_eq_append, List.getLastD_concat] at he
    subst he
    simp [List.nodup_append] at hnd

omit [DecidableEq α] in
/-- No node is its own successor. -/
theorem next_ne (h : IsDList next prev head xs) (hx : x ∈ xs) : next x ≠ x := by
  obtain ⟨l, r, rfl⟩ := List.append_of_mem hx
  have hn := h.next_mid
  have hnd := h.nodup
  cases r with
  | nil =>
    rw [hn]
    exact (h.seg.ne_zero hx).symm
  | cons y r =>
    intro he
    rw [hn, List.headD_cons] at he
    subst he
    simp [List.nodup_append] at hnd

/-- Only nodes of the list change when one is taken out. -/
theorem unlink_frame (h : IsDList next prev head xs) (hx : x ∈ xs) (hy : y ∉ xs) :
    unlinkNext next prev x y = next y ∧ unlinkPrev next prev x y = prev y := by
  unfold unlinkNext unlinkPrev
  constructor
  · by_cases h0 : prev x ≠ 0
    · rw [if_pos h0, Function.update_of_ne]
      rintro rfl
      exact hy (h.prev_mem hx h0)
    · rw [if_neg h0]
  · by_cases h0 : next x ≠ 0
    · rw [if_pos h0, Function.update_of_ne]
      rintro rfl
      exact hy (h.next_mem hx h0)
    · rw [if_neg h0]

/-- **A node taken out**: joining its neighbours leaves the list of the others. -/
theorem unlink (h : IsDList next prev head (l ++ x :: r)) :
    IsDList (unlinkNext next prev x) (unlinkPrev next prev x) (unlinkHead next prev head x)
      (l ++ r) := by
  have hnd := h.nodup
  have hprev := h.prev_mid
  have hnext := h.next_mid
  obtain ⟨hbl, -, hbr⟩ := Back.append.mp h.back
  constructor
  · -- forward: only the predecessor's link changes
    unfold unlinkNext unlinkHead
    rcases List.eq_nil_or_concat l with rfl | ⟨l, w, rfl⟩
    · rw [List.getLastD_nil] at hprev
      simp only [hprev, ne_eq, not_true_eq_false, if_false]
      exact h.seg.2.2
    · have hw : prev x = w := by simpa using hprev
      have hw0 : w ≠ 0 := h.seg.ne_zero (x := w) (by simp)
      simp only [hw, ne_eq, hw0, not_false_eq_true, if_true]
      obtain ⟨s, hls, hx⟩ := Seg.append.mp h.seg
      refine Seg.append.mpr ⟨next x, ?_, hx.2.2.congr fun y hy => Function.update_of_ne ?_ _ _⟩
      · rw [List.concat_eq_append] at hls ⊢
        refine seg_update_last hls fun hwl => ?_
        simp only [List.concat_eq_append, List.nodup_append, List.mem_append] at hnd
        exact hnd.1.2.2 w hwl w (List.mem_singleton_self w) rfl
      · rintro rfl
        simp [List.nodup_append, hy] at hnd
  · -- backward: only the successor's link changes
    unfold unlinkPrev
    cases r with
    | nil =>
      rw [List.headD_nil] at hnext
      simpa [hnext] using hbl
    | cons y r =>
      rw [List.headD_cons] at hnext
      have hy0 : y ≠ 0 := h.seg.ne_zero (x := y) (by simp)
      simp only [hnext, ne_eq, hy0, not_false_eq_true, if_true]
      refine Back.append.mpr ⟨hbl.congr fun z hz => Function.update_of_ne ?_ _ _, ?_,
        hbr.2.congr fun z hz => Function.update_of_ne ?_ _ _⟩
      · rintro rfl
        rw [List.nodup_append] at hnd
        exact hnd.2.2 z hz z (by simp) rfl
      · rw [Function.update_self, hprev]
      · rintro rfl
        simp [List.nodup_append, hz] at hnd

end IsDList

end PrismaticOS.Library
