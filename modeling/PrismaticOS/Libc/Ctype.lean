import Mathlib.Data.List.Basic

/-!
# Characters and strings

The classification of characters in `libc/include/ctype.h`, and the comparison of strings
without regard to case. A string is the list of its bytes without the final zero.
-/

namespace PrismaticOS.Libc

/-- A string. -/
abbrev Str := List UInt8

/-- Two strings are compared character by character. -/
instance : LawfulBEq Str := inferInstance

/-- The byte of an ASCII character. -/
def chr (c : Char) : UInt8 := UInt8.ofNat c.toNat

/-- The bytes of an ASCII string. -/
def str (s : String) : Str := s.toList.map chr

/-- `isspace`. -/
def isspace (c : UInt8) : Bool :=
  c == chr ' ' || c == 12 || c == chr '\n' || c == chr '\r' || c == chr '\t' || c == 11

/-- `islower`. -/
def islower (c : UInt8) : Bool := chr 'a' ≤ c && c ≤ chr 'z'

/-- `isupper`. -/
def isupper (c : UInt8) : Bool := chr 'A' ≤ c && c ≤ chr 'Z'

/-- `isalpha`. -/
def isalpha (c : UInt8) : Bool := isupper c || islower c

/-- `isdigit`. -/
def isdigit (c : UInt8) : Bool := chr '0' ≤ c && c ≤ chr '9'

/-- `isalnum`. -/
def isalnum (c : UInt8) : Bool := isalpha c || isdigit c

/-- `tolower`. -/
def tolower (c : UInt8) : UInt8 := if isupper c then c + 32 else c

/-- `strcasecmp(a, b) == 0`. -/
def sameCase (a b : Str) : Bool := a.map tolower == b.map tolower

theorem sameCase_self (a : Str) : sameCase a a = true := beq_self_eq_true _

/-- A letter is not one of the other characters. -/
theorem ne_of_isalpha {c d : UInt8} (h : isalpha c = true) (hd : isalpha d = false) : c ≠ d := by
  rintro rfl
  rw [h] at hd
  cases hd

theorem isspace_of_isalpha {c : UInt8} (h : isalpha c = true) : isspace c = false := by
  by_contra hspace
  simp only [isspace, Bool.not_eq_false, Bool.or_eq_true, beq_iff_eq, or_assoc] at hspace
  rcases hspace with rfl | rfl | rfl | rfl | rfl | rfl <;> revert h <;> decide

theorem isdigit_of_isalpha {c : UInt8} (h : isalpha c = true) : isdigit c = false := by
  have hA : (chr 'A').toNat = 65 := rfl
  have ha : (chr 'a').toNat = 97 := rfl
  have h9 : (chr '9').toNat = 57 := rfl
  simp only [isalpha, isupper, islower, isdigit, Bool.or_eq_true, Bool.and_eq_true,
    decide_eq_true_eq, Bool.and_eq_false_iff, decide_eq_false_iff_not,
    UInt8.le_iff_toNat_le] at *
  omega

/-- The small letter of a character that is no capital is the character. -/
theorem tolower_eq {c d : UInt8} (h : tolower c = d) (hd : isupper (d - 32) = false) : c = d := by
  unfold tolower at h
  split_ifs at h with hupper
  · have hcode : c = d - 32 := by rw [← h, UInt8.add_sub_cancel]
    rw [← hcode, hupper] at hd
    cases hd
  · exact h

/-- What a loop over the characters at the front leaves is no longer than the string. -/
theorem length_dropWhile_le (f : UInt8 → Bool) (s : Str) :
    (s.dropWhile f).length ≤ s.length := (List.dropWhile_suffix f).length_le

/-- A loop over the characters at the front ends at the first other one. -/
theorem dropWhile_head {f : UInt8 → Bool} {s r : Str} {c : UInt8}
    (h : s.dropWhile f = c :: r) : f c = false := by
  have hne : s.dropWhile f ≠ [] := by
    rw [h]
    exact List.cons_ne_nil c r
  have hhead := List.head_dropWhile_not f hne
  simpa [h] using hhead

/-- A loop over the characters at the front ends before another one. -/
theorem dropWhile_ne_nil {f : UInt8 → Bool} {s : Str} (h : ∃ c ∈ s, f c = false) :
    s.dropWhile f ≠ [] := by
  obtain ⟨c, hc, hf⟩ := h
  intro hnil
  have happend := List.takeWhile_append_dropWhile (p := f) (l := s)
  rw [hnil, List.append_nil] at happend
  rw [← happend] at hc
  rw [List.all_eq_true.mp List.all_takeWhile c hc] at hf
  cases hf

/-- A loop over characters of a kind stops at the end of the string, or at the first other
one. -/
theorem takeWhile_to {f : UInt8 → Bool} {a r : Str} (ha : ∀ x ∈ a, f x = true)
    (hr : ∀ c, r.head? = some c → f c = false) : (a ++ r).takeWhile f = a := by
  rw [List.takeWhile_append_of_pos ha]
  cases r with
  | nil => simp
  | cons c r => simp [hr c rfl]

theorem dropWhile_to {f : UInt8 → Bool} {a r : Str} (ha : ∀ x ∈ a, f x = true)
    (hr : ∀ c, r.head? = some c → f c = false) : (a ++ r).dropWhile f = r := by
  rw [List.dropWhile_append_of_pos ha]
  cases r with
  | nil => rfl
  | cons c r => simp [hr c rfl]

variable {f : UInt8 → Bool} {a r : Str} {c : UInt8}

theorem takeWhile_stop (ha : ∀ x ∈ a, f x = true) (hc : f c = false) :
    (a ++ c :: r).takeWhile f = a := takeWhile_to ha fun b hb => by cases hb; exact hc

theorem dropWhile_stop (ha : ∀ x ∈ a, f x = true) (hc : f c = false) :
    (a ++ c :: r).dropWhile f = c :: r := dropWhile_to ha fun b hb => by cases hb; exact hc

end PrismaticOS.Libc
