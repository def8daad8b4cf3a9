import Mathlib.Data.List.Basic

/-!
# Lists cut into pieces

A list is cut after every element of a kind, and after a number of elements where none is of it: as
a text is cut into lines by a reader whose buffer may be shorter than a line.

## What is proved

* `firstPiece_append` — the first piece and the others are the list.
* `pieces_flatten` — the pieces are the list.
* `pieces_spec` — no piece is too long, an element of the kind is the last one of its piece, and only
  the last piece may be shorter without ending in one.
-/

namespace PrismaticOS.Library

variable {α : Type*} {stop : α → Bool} {n : ℕ} {l : List α}

/-- The first piece, with at most so many elements, and the others. -/
def firstPiece (stop : α → Bool) : ℕ → List α → List α × List α
  | 0, l => ([], l)
  | _ + 1, [] => ([], [])
  | n + 1, a :: l =>
    if stop a then ([a], l)
    else
      let (piece, rest) := firstPiece stop n l
      (a :: piece, rest)

theorem firstPiece_append (stop : α → Bool) (n : ℕ) (l : List α) :
    (firstPiece stop n l).1 ++ (firstPiece stop n l).2 = l := by
  fun_induction firstPiece stop n l with
  | case1 l => rfl
  | case2 n => rfl
  | case3 n a l ha => rfl
  | case4 n a l ha piece rest heq ih =>
    rw [heq] at ih
    exact congrArg (a :: ·) ih

/-- The first piece of a list is not empty. -/
theorem firstPiece_pos (stop : α → Bool) (n : ℕ) (a : α) (l : List α) :
    0 < (firstPiece stop (n + 1) (a :: l)).1.length := by
  rw [firstPiece]
  split_ifs
  · exact Nat.one_pos
  · exact Nat.succ_pos _

theorem firstPiece_rest_lt (stop : α → Bool) (n : ℕ) (a : α) (l : List α) :
    (firstPiece stop (n + 1) (a :: l)).2.length < (a :: l).length := by
  have happend := congrArg List.length (firstPiece_append stop (n + 1) (a :: l))
  have hpos := firstPiece_pos stop n a l
  rw [List.length_append] at happend
  omega

/-- The pieces, with at most `n + 1` elements each. -/
def pieces (stop : α → Bool) (n : ℕ) : List α → List (List α)
  | [] => []
  | a :: l =>
    (firstPiece stop (n + 1) (a :: l)).1 :: pieces stop n (firstPiece stop (n + 1) (a :: l)).2
termination_by l => l.length
decreasing_by exact firstPiece_rest_lt stop n a l

/-- **The pieces are the list.** -/
theorem pieces_flatten (stop : α → Bool) (n : ℕ) (l : List α) : (pieces stop n l).flatten = l := by
  fun_induction pieces stop n l with
  | case1 => rfl
  | case2 a l ih => rw [List.flatten_cons, ih, firstPiece_append]

/-- What a piece is; it may be the last one. -/
structure Piece (stop : α → Bool) (n : ℕ) (piece : List α) (last : Prop) : Prop where
  /-- It is not too long. -/
  bounded : piece.length ≤ n
  /-- An element of the kind is the last one. -/
  stops : ∀ (i : ℕ) a, piece[i]? = some a → stop a = true → i + 1 = piece.length
  /-- It is cut for a reason. -/
  cut : piece.length = n ∨ (∃ a ∈ piece.getLast?, stop a = true) ∨ last

theorem Piece.imp {piece : List α} {last last' : Prop} (h : Piece stop n piece last)
    (himp : last → last') : Piece stop n piece last' :=
  ⟨h.bounded, h.stops, h.cut.imp_right (Or.imp_right himp)⟩

theorem firstPiece_spec (stop : α → Bool) (n : ℕ) (l : List α) :
    Piece stop n (firstPiece stop n l).1 ((firstPiece stop n l).2 = []) := by
  fun_induction firstPiece stop n l with
  | case1 l => exact ⟨Nat.le_refl _, nofun, .inl rfl⟩
  | case2 n => exact ⟨Nat.zero_le _, nofun, .inr (.inr rfl)⟩
  | case3 n a l ha =>
    refine ⟨Nat.succ_le_succ (Nat.zero_le n), fun i b hi _ => ?_, .inr (.inl ⟨a, rfl, ha⟩)⟩
    cases i with
    | zero => rfl
    | succ i => cases hi
  | case4 n a l ha piece rest heq ih =>
    rw [heq] at ih
    refine ⟨Nat.succ_le_succ ih.bounded, fun i b hi hb => ?_, ?_⟩
    · cases i with
      | zero =>
        cases hi
        exact absurd hb ha
      | succ i => exact congrArg (· + 1) (ih.stops i b hi hb)
    · rcases ih.cut with hfull | ⟨b, hlast, hb⟩ | hrest
      · exact .inl (congrArg (· + 1) hfull)
      · refine .inr (.inl ⟨b, ?_, hb⟩)
        rw [Option.mem_def] at hlast ⊢
        rw [List.getLast?_cons, hlast]
        rfl
      · exact .inr (.inr hrest)

/-- **The pieces**: all but the last are full or end with an element of the kind. -/
theorem pieces_spec (stop : α → Bool) (n : ℕ) (l : List α) :
    ∀ (i : ℕ) piece, (pieces stop n l)[i]? = some piece →
      Piece stop (n + 1) piece (i + 1 = (pieces stop n l).length) := by
  fun_induction pieces stop n l with
  | case1 => exact nofun
  | case2 a l ih =>
    intro i piece hi
    cases i with
    | zero =>
      cases hi
      refine (firstPiece_spec stop (n + 1) (a :: l)).imp fun hrest => ?_
      rw [hrest, pieces, List.length_singleton]
    | succ i => exact (ih i piece hi).imp (congrArg (· + 1))

end PrismaticOS.Library
