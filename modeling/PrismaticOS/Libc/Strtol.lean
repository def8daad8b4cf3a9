import Mathlib.Data.Nat.Digits.Defs
import PrismaticOS.Libc.Ctype
import PrismaticOS.Libc.Strings

/-!
# `strtol` and the functions beside it

`strtol`, `strtoll`, `strtoul` and `strtoull` of `libc/src/stdlib/atoi.c`. Their bodies are the same
but for the limits and for what a minus sign does: `convertText`, with the integer type as a
parameter.

## The model

A character is its byte: those from 128 on, which are negative, are of no class either way. What
`*endptr` is set to is part of the result, and so is whether a product or a sum did not fit
(`wrapped`). `LONG_MIN` and the other limits are those of 64 bits.

## What is proved

* `next_reads` — one digit: the test that is made before it is exact.
* `digitLoop_reads` — all digits, by induction.
-/

namespace PrismaticOS.Libc

open PrismaticOS.Library

/-! ### The functions -/

/-- What a digit is worth: 0 to 9, and 10 to 35 for the letters. -/
def digitWorth (c : UInt8) : Option ℕ :=
  if isdigit c then some (c.toNat - (chr '0').toNat)
  else if isalpha c then
    some (c.toNat - if isupper c then (chr 'A').toNat - 10 else (chr 'a').toNat - 10)
  else none

/-- `do { c = *s++; } while (isspace(c));`: `c` and `s` after it. -/
def skipSpaces (m : Mem) : ℕ → ℕ → Option (UInt8 × ℕ)
  | 0, _ => none
  | steps + 1, s => if isspace (m s) then skipSpaces m steps (s + 1) else some (m s, s + 1)

/-- The sign: `neg`, and `c` and `s` after it. -/
def readSign (m : Mem) (c : UInt8) (s : ℕ) : Bool × UInt8 × ℕ :=
  if c = chr '-' then (true, m s, s + 1)
  else if c = chr '+' then (false, m s, s + 1)
  else (false, c, s)

/-- The base prefix: `base`, `c` and `s` after it. -/
def readBase (m : Mem) (base : ℤ) (c : UInt8) (s : ℕ) : ℤ × UInt8 × ℕ :=
  if (base = 0 ∨ base = 16) ∧ c = chr '0' ∧ (m s = chr 'x' ∨ m s = chr 'X') then
    (16, m (s + 1), s + 2)
  else if base = 0 then (if c = chr '0' then 8 else 10, c, s)
  else (base, c, s)

/-- `any` and `acc`, and whether an operation on `acc` has wrapped around. -/
structure Accumulator where
  /-- 0 before the first digit, 1 after it, and -1 once the number is too large. -/
  any : ℤ
  /-- The number so far. -/
  acc : ℕ
  /-- A product or a sum did not fit. -/
  wrapped : Bool

/-- One digit. -/
def Accumulator.next (a : Accumulator) (base cutoff cutlim c : ℕ) : Accumulator :=
  if a.any < 0 ∨ a.acc > cutoff ∨ (a.acc = cutoff ∧ c > cutlim) then { a with any := -1 }
  else
    { any := 1
      acc := wrap 64 (wrap 64 (a.acc * base) + c)
      wrapped := a.wrapped || decide (2 ^ 64 ≤ a.acc * base) ||
        decide (2 ^ 64 ≤ wrap 64 (a.acc * base) + c) }

/-- The loop over the digits: what was read, and `s` after it. -/
def digitLoop (m : Mem) (base cutoff cutlim : ℕ) :
    ℕ → UInt8 → ℕ → Accumulator → Option (Accumulator × ℕ)
  | 0, _, _, _ => none
  | steps + 1, c, s, a =>
    match digitWorth c with
    | none => some (a, s)
    | some d =>
      if d ≥ base then some (a, s)
      else digitLoop m base cutoff cutlim steps (m s) (s + 1) (a.next base cutoff cutlim d)

/-- The integer type of a function. -/
structure IntType where
  /-- The largest absolute value, `cutoff` before the division. -/
  limit : Bool → ℕ
  /-- What `acc` is if the number is too large. -/
  saturated : Bool → ℕ
  /-- `if (neg) acc = -acc;` -/
  negates : Bool
  /-- The value of `acc` in the type that is returned. -/
  ofAcc : ℕ → ℤ

/-- What a call returns and stores. -/
structure Converted where
  /-- What is returned. -/
  value : ℤ
  /-- What `*endptr` is set to. -/
  endptr : ℕ
  /-- An operation on `acc` has wrapped around. -/
  wrapped : Bool

/-- The body of the four functions. -/
def convertText (t : IntType) (m : Mem) (nptr : ℕ) (base : ℤ) : Option Converted :=
  (skipSpaces m addresses nptr).bind fun first =>
    let (neg, c, s) := readSign m first.1 first.2
    let (base, c, s) := readBase m base c s
    if base < 2 ∨ base > 36 then some ⟨0, nptr, false⟩
    else
      (digitLoop m base.toNat (t.limit neg / base.toNat) (t.limit neg % base.toNat) addresses c s
        ⟨0, 0, false⟩).map fun (a, s) =>
          let acc :=
            if a.any < 0 then t.saturated neg
            else if t.negates && neg then wsub 64 0 a.acc
            else a.acc
          ⟨t.ofAcc acc, if a.any ≠ 0 then s - 1 else nptr, a.wrapped⟩

/-- `long` and `long long`. -/
def signedType (min max : ℤ) : IntType where
  limit neg := if neg then wsub 64 0 (ofInt 64 min) else ofInt 64 max
  saturated neg := if neg then ofInt 64 min else ofInt 64 max
  negates := true
  ofAcc acc := toSigned 64 acc

/-- `unsigned long` and `unsigned long long`. -/
def unsignedType (max : ℕ) : IntType where
  limit _ := max
  saturated _ := max
  negates := false
  ofAcc acc := acc

/-- `LONG_MIN` and `LLONG_MIN`. -/
def longMin : ℤ := -2 ^ 63

/-- `LONG_MAX` and `LLONG_MAX`. -/
def longMax : ℤ := 2 ^ 63 - 1

/-- `ULONG_MAX` and `ULLONG_MAX`. -/
def ulongMax : ℕ := 2 ^ 64 - 1

/-- `strtol`. -/
def strtol : Mem → ℕ → ℤ → Option Converted := convertText (signedType longMin longMax)

/-- `strtoll`. -/
def strtoll : Mem → ℕ → ℤ → Option Converted := convertText (signedType longMin longMax)

/-- `strtoul`. -/
def strtoul : Mem → ℕ → ℤ → Option Converted := convertText (unsignedType ulongMax)

/-- `strtoull`. -/
def strtoull : Mem → ℕ → ℤ → Option Converted := convertText (unsignedType ulongMax)

/-- The character is a digit of the base. -/
def IsDigit (base : ℕ) (c : UInt8) : Prop := ∃ d, digitWorth c = some d ∧ d < base

section
variable {m : Mem} {p base limit n d : ℕ} {a : Accumulator} {ds : List ℕ} {c : UInt8}
  {spaces digits more rest : Str}

/-! ### The number -/

/-- These digits have been read: the number is `acc` if it is not above the limit. -/
structure Reads (limit base : ℕ) (ds : List ℕ) (a : Accumulator) : Prop where
  /-- It is not too large. -/
  small : Nat.ofDigits base ds.reverse ≤ limit →
    a.acc = Nat.ofDigits base ds.reverse ∧ a.any = if ds = [] then 0 else 1
  /-- It is. -/
  large : limit < Nat.ofDigits base ds.reverse → a.any = -1
  /-- Nothing has wrapped around. -/
  exact : a.wrapped = false

theorem reads_nil (limit base : ℕ) : Reads limit base [] ⟨0, 0, false⟩ :=
  ⟨fun _ => ⟨rfl, rfl⟩, nofun, rfl⟩

/-- **The test before a digit** says whether the limit would be exceeded. -/
theorem exceeds_iff (hd : d < base) :
    n > limit / base ∨ n = limit / base ∧ d > limit % base ↔ limit < d + base * n := by
  have hlimit := Nat.div_add_mod limit base
  have hmod := Nat.mod_lt limit (Nat.zero_lt_of_lt hd)
  rcases lt_trichotomy n (limit / base) with hlt | rfl | hgt
  · have hnext : base * (n + 1) ≤ base * (limit / base) := Nat.mul_le_mul_left base hlt
    rw [Nat.mul_succ] at hnext
    omega
  · omega
  · have hnext : base * (limit / base + 1) ≤ base * n := Nat.mul_le_mul_left base hgt
    rw [Nat.mul_succ] at hnext
    omega

theorem ofDigits_snoc (base : ℕ) (ds : List ℕ) (d : ℕ) :
    Nat.ofDigits base (ds ++ [d]).reverse = d + base * Nat.ofDigits base ds.reverse := by
  rw [List.reverse_append, List.reverse_singleton, List.singleton_append, Nat.ofDigits_cons]

/-- **One digit.** -/
theorem next_reads (h : Reads limit base ds a) (hd : d < base) (hlimit : limit < 2 ^ 64) :
    Reads limit base (ds ++ [d]) (a.next base (limit / base) (limit % base) d) := by
  have hne : ds ++ [d] ≠ [] := by simp
  have hpos : 0 < base := Nat.zero_lt_of_lt hd
  have hexceeds (n : ℕ) : n > limit / base ∨ n = limit / base ∧ d > limit % base ↔
      limit < d + base * n := exceeds_iff hd
  have hgrows : Nat.ofDigits base ds.reverse ≤ base * Nat.ofDigits base ds.reverse :=
    Nat.le_mul_of_pos_left _ hpos
  rw [Accumulator.next]
  by_cases hsmall : Nat.ofDigits base ds.reverse ≤ limit
  · obtain ⟨hacc, hany⟩ := h.small hsmall
    have hnonneg : ¬ a.any < 0 := by
      rw [hany]
      split_ifs <;> decide
    rw [hacc]
    split_ifs with htest
    · rw [or_iff_right hnonneg, hexceeds] at htest
      refine ⟨fun hle => ?_, fun _ => rfl, h.exact⟩
      rw [ofDigits_snoc] at hle
      omega
    · rw [or_iff_right hnonneg, hexceeds] at htest
      have hproduct : wrap 64 (Nat.ofDigits base ds.reverse * base) =
          base * Nat.ofDigits base ds.reverse := by
        rw [Nat.mul_comm]
        exact wrap_of_lt (by omega)
      refine ⟨fun _ => ⟨?_, (if_neg hne).symm⟩, fun hlt => ?_, ?_⟩
      · rw [ofDigits_snoc, hproduct, Nat.add_comm]
        exact wrap_of_lt (by omega)
      · rw [ofDigits_snoc] at hlt
        omega
      · simp only [h.exact, hproduct, Bool.false_or, Bool.or_eq_false_iff, decide_eq_false_iff_not]
        rw [Nat.mul_comm (Nat.ofDigits base ds.reverse)]
        omega
  · have hany := h.large (Nat.lt_of_not_le hsmall)
    rw [if_pos (.inl (by rw [hany]; decide))]
    refine ⟨fun hle => ?_, fun _ => rfl, h.exact⟩
    rw [ofDigits_snoc] at hle
    omega

/-! ### The loops -/

/-- The byte where a string begins. -/
theorem first_byte (h : IsString m p rest) : m p = rest.head?.getD 0 := by
  cases rest with
  | nil => exact h
  | cons c rest => exact h.1

/-- **The digits**: the loop stops at the first character that is none, one address farther on. -/
theorem digitLoop_reads {steps : ℕ} (h : IsString m p (digits ++ more)) (hlimit : limit < 2 ^ 64)
    (hdigits : ∀ c ∈ digits, IsDigit base c) (hmore : ∀ c ∈ more.head?, ¬ IsDigit base c)
    (hsteps : digits.length < steps) (ha : Reads limit base ds a) :
    ∃ a', digitLoop m base (limit / base) (limit % base) steps (m p) (p + 1) a =
        some (a', p + digits.length + 1) ∧
      Reads limit base (ds ++ digits.filterMap digitWorth) a' := by
  induction digits generalizing p steps a ds with
  | nil =>
    obtain ⟨steps, rfl⟩ := Nat.exists_eq_add_one.mpr hsteps
    rw [List.nil_append] at h
    refine ⟨a, ?_, by simpa using ha⟩
    rw [digitLoop, first_byte h]
    cases hworth : digitWorth (more.head?.getD 0) with
    | none => rfl
    | some d =>
      cases more with
      | nil => cases hworth
      | cons c more => exact if_pos (Nat.le_of_not_lt fun hd => hmore c rfl ⟨d, hworth, hd⟩)
  | cons c digits ih =>
    obtain ⟨steps, rfl⟩ := Nat.exists_eq_add_one.mpr (Nat.zero_lt_of_lt hsteps)
    obtain ⟨⟨d, hworth, hd⟩, hdigits⟩ := List.forall_mem_cons.mp hdigits
    obtain ⟨hc, -, h⟩ := h
    obtain ⟨a', hloop, hreads⟩ := ih h hdigits (Nat.lt_of_succ_lt_succ hsteps)
      (next_reads ha hd hlimit)
    refine ⟨a', ?_, ?_⟩
    · rw [digitLoop, hc, hworth]
      simp only
      rw [if_neg (Nat.not_le_of_lt hd), hloop, List.length_cons, Nat.add_right_comm p,
        Nat.add_assoc p]
    · rwa [List.filterMap_cons_some hworth, ← List.singleton_append, ← List.append_assoc]

/-- The whitespace. -/
theorem skipSpaces_eq {steps : ℕ} (h : IsString m p (spaces ++ rest))
    (hspaces : ∀ c ∈ spaces, isspace c = true) (hrest : ∀ c ∈ rest.head?, isspace c = false)
    (hsteps : spaces.length < steps) :
    skipSpaces m steps p = some (m (p + spaces.length), p + spaces.length + 1) := by
  induction spaces generalizing p steps with
  | nil =>
    obtain ⟨steps, rfl⟩ := Nat.exists_eq_add_one.mpr hsteps
    have hstop : ¬ isspace (m p) = true := by
      rw [first_byte h, List.nil_append]
      cases rest with
      | nil => decide
      | cons c rest => exact Bool.eq_false_iff.mp (hrest c rfl)
    exact if_neg hstop
  | cons c spaces ih =>
    obtain ⟨steps, rfl⟩ := Nat.exists_eq_add_one.mpr (Nat.zero_lt_of_lt hsteps)
    obtain ⟨hspace, hspaces⟩ := List.forall_mem_cons.mp hspaces
    rw [skipSpaces, h.1, if_pos hspace, ih h.2.2 hspaces (Nat.lt_of_succ_lt_succ hsteps),
      List.length_cons, Nat.add_right_comm p, Nat.add_assoc p]

end

end PrismaticOS.Libc
