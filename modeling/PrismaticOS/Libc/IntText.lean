import PrismaticOS.Libc.IntConversions
import PrismaticOS.Library.Padding

/-!
# What `format_int` prints

The text of an integer with flags, a width and a precision, in closed form.

## The model

The sign and the digits are padded with zeros to the precision. The loop for the width prints spaces,
or with the flag `-` what it finds from the first character on, also behind the local buffer. After
it the loop for the number prints what is there up to a zero.

## What is proved

* `intCells_parts` — what is written to the buffer.
* `formatInt_eq` — what is printed.
-/

namespace PrismaticOS.Libc

open PrismaticOS.Library

/-- The sign that `format_int` writes. -/
def intSign (base : ℕ) (value : ℤ) (flags : UInt32) : Str :=
  if value < 0 ∧ base = 10 then [chr '-']
  else if flags &&& 1 ≠ 0 then [chr '+'] else if flags &&& 2 ≠ 0 then [chr ' '] else []

/-- The digits that it writes: none for the least value, and for a negative one in another base. -/
def intDigits (base : ℕ) (value : ℤ) : Str :=
  if 0 ≤ value ∨ base = 10 ∧ value ≠ -2 ^ 63 then numeral digitChar base value.natAbs else []

/-- How many characters it passes behind its buffer for the width. -/
def passedCells (width : Int32) (flags : UInt32) (cells : Str) : ℕ :=
  if flags &&& 4 ≠ 0 then (width.toInt - cells.length).toNat - cells.length else 0

/-- The spaces in front. -/
def leadingSpaces (width : Int32) (flags : UInt32) (cells : Str) : Str :=
  if flags &&& 4 ≠ 0 then [] else List.replicate (width.toInt - cells.length).toNat (chr ' ')

/-- What is printed from `cells`: some characters, and then those up to a zero. -/
def outputFrom (passed : ℕ) (cells : Str) : Option Str :=
  (untilZero (cells.drop passed)).map (cells.take passed ++ ·)

section
variable {value : Int64} {base : ℕ} {width precision : Int32} {flags : UInt32} {behind : Str}

/-- The digits are those of the value, as far as that can be negated. -/
theorem intDigits_eq (value : Int64) (hb : 1 < base) :
    (if (if value < 0 ∧ base = 10 then -value else value) = 0 then [chr '0']
      else writeDigits digitChar base
        (if value < 0 ∧ base = 10 then -value else value).toInt.toNat []) =
      intDigits base value.toInt := by
  have hneg : value < 0 ↔ value.toInt < 0 := Int64.lt_iff_toInt_lt
  rw [writtenDigits_eq _ hb, intDigits]
  simp only [hneg]
  by_cases hminus : value.toInt < 0 ∧ base = 10
  · have htoInt := toInt_neg_eq hminus.1
    have hlt := hminus.1
    rw [if_pos hminus]
    by_cases hmin : value.toInt = -2 ^ 63
    · -- the least value stays negative
      rw [if_pos hmin] at htoInt
      rw [htoInt, if_neg (by decide), if_neg]
      omega
    · rw [if_neg hmin] at htoInt
      rw [htoInt, if_pos (by omega), if_pos (.inr ⟨hminus.2, hmin⟩), Int.natAbs_neg]
  · rw [if_neg hminus]
    by_cases hpos : 0 ≤ value.toInt
    · rw [if_pos hpos, if_pos (.inl hpos)]
    · rw [if_neg hpos, if_neg]
      omega

/-- **What `format_int` writes** to its buffer. -/
theorem intCells_parts (value : Int64) (hb : 1 < base) (precision : Int32) (flags : UInt32) :
    intCells value base precision flags =
      padLeft (chr '0') precision.toInt.toNat
        (intSign base value.toInt flags ++ intDigits base value.toInt) := by
  have hneg : value < 0 ↔ value.toInt < 0 := Int64.lt_iff_toInt_lt
  have hzeros (n : ℕ) : (precision.toInt - n).toNat = precision.toInt.toNat - n := by omega
  unfold intCells
  dsimp only
  rw [intDigits_eq value hb, hzeros]
  simp only [padLeft, intSign, hneg]

theorem untilZero_nil : untilZero [] = none := rfl

@[simp]
theorem outputFrom_zero (cells : Str) : outputFrom 0 cells = untilZero cells := by
  rw [outputFrom, List.drop_zero, List.take_zero]
  exact Option.map_id'

/-- The loop for the width goes over a part of what is in the buffer. -/
theorem outputFrom_le {cells : Str} (hzero : 0 ∉ cells) {missing : ℕ} (h : missing ≤ cells.length)
    (behind : Str) :
    outputFrom missing (cells ++ behind) = (untilZero behind).map (cells ++ ·) := by
  have hdrop : 0 ∉ cells.drop missing := fun hmem => hzero (List.mem_of_mem_drop hmem)
  rw [outputFrom, List.drop_append_of_le_length h, List.take_append_of_le_length h,
    untilZero_append hdrop, Option.map_map]
  congr 1
  funext strays
  rw [Function.comp_apply, ← List.append_assoc, List.take_append_drop]

/-- The loop for the width goes on behind the buffer. -/
theorem outputFrom_ge {cells : Str} {missing : ℕ} (h : cells.length ≤ missing) (behind : Str) :
    outputFrom missing (cells ++ behind) =
      (outputFrom (missing - cells.length) behind).map (cells ++ ·) := by
  rw [outputFrom, List.drop_append, List.take_append, List.drop_eq_nil_of_le h,
    List.take_of_length_le h, List.nil_append, outputFrom, Option.map_map]
  congr 1
  funext strays
  exact List.append_assoc _ _ _

/-- **What `format_int` prints**: spaces, what is in its buffer, and what it finds behind it. -/
theorem formatInt_eq (value : Int64) (hb : 1 < base) (hle : base ≤ 16) (width precision : Int32)
    (flags : UInt32) (behind : Str) (hfits : (intCells value base precision flags).length ≤ 64) :
    formatInt value base width precision flags behind =
      (outputFrom (passedCells width flags (intCells value base precision flags)) behind).map
        (leadingSpaces width flags (intCells value base precision flags) ++
          intCells value base precision flags ++ ·) := by
  have hzero := zero_notMem_intCells value hb hle precision flags
  unfold formatInt passedCells leadingSpaces
  dsimp only
  generalize intCells value base precision flags = cells at hfits hzero ⊢
  generalize (width.toInt - cells.length).toNat = missing
  rw [if_neg (Nat.not_lt.mpr hfits)]
  split_ifs with hminus hshort
  · -- there is no zero to come to
    have hlen : (cells ++ behind).length = cells.length + behind.length := List.length_append
    have hnil : behind.drop (missing - cells.length) = [] := List.drop_eq_nil_of_le (by omega)
    rw [outputFrom, hnil, untilZero_nil, Option.map_none, Option.map_none]
  · have hout : (untilZero ((cells ++ behind).drop missing)).map
        ((cells ++ behind).take missing ++ ·) = outputFrom missing (cells ++ behind) := rfl
    rw [hout]
    rcases le_total missing cells.length with h | h
    · rw [outputFrom_le hzero h, Nat.sub_eq_zero_of_le h, outputFrom_zero, List.nil_append]
    · rw [outputFrom_ge h, List.nil_append]
  · rw [untilZero_append hzero, Option.map_map, outputFrom_zero]
    congr 1
    funext strays
    rw [Function.comp_apply, List.append_assoc]

/-- It writes in front of its buffer. -/
theorem formatInt_none (h : 64 < (intCells value base precision flags).length) :
    formatInt value base width precision flags behind = none :=
  if_pos h

end

end PrismaticOS.Libc
