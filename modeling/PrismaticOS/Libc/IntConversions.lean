import PrismaticOS.Libc.Printf

/-!
# Integer conversions

The conversions `d`, `i`, `u`, `o`, `x` and `X` of `vprintf_internal`, each with a length
modifier or none, and without flags, width and precision.

## The model

An argument is eight bytes. The type that the conversion and the length modifier name says what
number it is.

## What is proved

* `cells_eq_iff` — what `format_int` writes for a value is the numeral of a number exactly if
  it is the numeral of the value, this is not the least one and, in base 8 and 16, not negative,
  and the digits from ten on are to be in upper case.
* `readValue_eq_iff` — what is read of the argument is the argument, but not from 2⁶³ on, and
  not beyond `int` for `j`, `z` and `t`.
* `prints_numeral_iff` — the exact condition for a conversion to print the argument's numeral.
* `lower_case_is_upper` — `%x` does not.
-/

namespace PrismaticOS.Libc

open PrismaticOS.Library

/-! ### What the conversions should print -/

/-- The conversions of an integer. -/
inductive IntConversion where
  /-- Signed. -/
  | d | i
  /-- Unsigned. -/
  | u | o | x | X
  deriving DecidableEq

/-- The specifier of a conversion. -/
def IntConversion.specifier : IntConversion → UInt8
  | .d => chr 'd'
  | .i => chr 'i'
  | .u => chr 'u'
  | .o => chr 'o'
  | .x => chr 'x'
  | .X => chr 'X'

/-- The base of a conversion. -/
def IntConversion.base : IntConversion → ℕ
  | .o => 8
  | .x | .X => 16
  | _ => 10

/-- Whether the argument has a sign. -/
def IntConversion.signed : IntConversion → Bool
  | .d | .i => true
  | _ => false

/-- A digit, where `ten` is that for ten. -/
def digitFrom (ten : Char) (digit : ℕ) : UInt8 :=
  if digit < 10 then UInt8.ofNat ('0'.toNat + digit) else UInt8.ofNat (ten.toNat + digit - 10)

/-- The digits of a conversion. -/
def IntConversion.digit : IntConversion → ℕ → UInt8
  | .X => digitFrom 'A'
  | _ => digitFrom 'a'

/-- How a length modifier is written. -/
def LengthModifier.chars : LengthModifier → Str
  | .none => []
  | .hh => str "hh"
  | .h => str "h"
  | .l => str "l"
  | .ll => str "ll"
  | .j => str "j"
  | .z => str "z"
  | .t => str "t"
  | .L => str "L"

/-- How many bits the type of the argument has. With `L`, which is for floating point, it is
`int`. -/
def LengthModifier.bits : LengthModifier → ℕ
  | .hh => 8
  | .h => 16
  | .none | .L => 32
  | .l | .ll | .j | .z | .t => 64

/-- The argument as a number. -/
def argument (conv : IntConversion) (length : LengthModifier) (slot : UInt64) : ℤ :=
  if conv.signed then (slot.toNat : ℤ).bmod (2 ^ length.bits) else slot.toNat % 2 ^ length.bits

/-- The numeral of an integer, with its sign if it is negative. -/
def signedNumeral (digit : ℕ → UInt8) (base : ℕ) (value : ℤ) : Str :=
  (if value < 0 then [chr '-'] else []) ++ numeral digit base value.natAbs

/-- Where the format has the conversion, the loop prints the numeral of the argument and goes on,
whatever is in memory after `b`, the byte behind the local buffer of `format_int`. -/
def PrintsNumeral (conv : IntConversion) (length : LengthModifier) (slot : UInt64) (b : UInt8) :
    Prop :=
  ∀ (mem : PrintfMemory) (rest tail : Str) (args : List UInt64) (st : PrintfState),
    mem.behind rest.length = b :: tail →
    vprintfLoop mem (chr '%' :: (length.chars ++ conv.specifier :: rest)) (slot :: args) st =
      vprintfLoop mem rest args (st.print
        ⟨signedNumeral conv.digit conv.base (argument conv length slot), 1, none⟩)

/-- The numbers that are read as they are and can be printed: not the least one, none from 2⁶³
on, and with `j`, `z` and `t` none beyond `int`. -/
def Fits (conv : IntConversion) (length : LengthModifier) (value : ℤ) : Prop :=
  (-2 ^ 63 < value ∧ value < 2 ^ 63) ∧
  (length = .j ∨ length = .z ∨ length = .t →
    if conv.signed then -2 ^ 31 ≤ value ∧ value < 2 ^ 31 else value < 2 ^ 32)

/-- The numbers that the conversion prints. With `x` these have no letter for a digit. -/
def Printable (conv : IntConversion) (length : LengthModifier) (value : ℤ) : Prop :=
  Fits conv length value ∧ (conv = .x → ∀ d ∈ numeralDigits 16 value.natAbs, d < 10)

/-! ### What is read -/

/-- The value that the conversion reads. -/
def readValue (conv : IntConversion) (length : LengthModifier) (slot : UInt64) : Int64 :=
  if conv.signed then signedArg length slot else (unsignedArg length slot).toInt64

/-- How many bits are read. -/
def LengthModifier.bitsRead : LengthModifier → ℕ
  | .hh => 8
  | .h => 16
  | .l | .ll => 64
  | .none | .L | .j | .z | .t => 32

theorem toInt_toInt32 (x : UInt32) : x.toInt32.toInt = (x.toNat : ℤ).bmod (2 ^ 32) :=
  BitVec.toInt_eq_toNat_bmod x.toBitVec

theorem toInt_toInt64 (x : UInt64) : x.toInt64.toInt = (x.toNat : ℤ).bmod (2 ^ 64) :=
  BitVec.toInt_eq_toNat_bmod x.toBitVec

theorem toInt_signedArg (length : LengthModifier) (slot : UInt64) :
    (signedArg length slot).toInt = (slot.toNat : ℤ).bmod (2 ^ length.bitsRead) := by
  have hint : slot.toUInt32.toInt32.toInt = (slot.toNat : ℤ).bmod (2 ^ 32) := by
    rw [toInt_toInt32, UInt64.toNat_toUInt32, Int.natCast_mod]
    exact Int.emod_bmod ..
  cases length with
  | hh =>
    calc (signedArg .hh slot).toInt = (slot.toUInt32.toInt32.toInt).bmod (2 ^ 8) := by
          simp [signedArg]
      _ = (slot.toNat : ℤ).bmod (2 ^ 8) := by
          rw [hint, Int.bmod_bmod_of_dvd (by decide)]
  | h =>
    calc (signedArg .h slot).toInt = (slot.toUInt32.toInt32.toInt).bmod (2 ^ 16) := by
          simp [signedArg]
      _ = (slot.toNat : ℤ).bmod (2 ^ 16) := by
          rw [hint, Int.bmod_bmod_of_dvd (by decide)]
  | l => exact toInt_toInt64 slot
  | ll => exact toInt_toInt64 slot
  | none => exact (Int32.toInt_toInt64 _).trans hint
  | j => exact (Int32.toInt_toInt64 _).trans hint
  | z => exact (Int32.toInt_toInt64 _).trans hint
  | t => exact (Int32.toInt_toInt64 _).trans hint
  | L => exact (Int32.toInt_toInt64 _).trans hint

theorem toNat_unsignedArg (length : LengthModifier) (slot : UInt64) :
    (unsignedArg length slot).toNat = slot.toNat % 2 ^ length.bitsRead := by
  have hlt : slot.toNat < 2 ^ 64 := slot.toNat_lt
  cases length <;> simp [unsignedArg, LengthModifier.bitsRead]

/-! ### What `format_int` writes -/

/-- No digit is the minus sign or a zero byte. -/
theorem digitChar_ne {d : ℕ} (h : d < 16) : digitChar d ≠ chr '-' ∧ digitChar d ≠ 0 := by
  revert d
  decide

theorem digit_ne (conv : IntConversion) {d : ℕ} (h : d < 16) : conv.digit d ≠ chr '-' := by
  cases conv <;> revert d <;> decide

/-- The digits that are written are those of the conversion, but for the letters of all but
`X`. -/
theorem digitChar_eq_iff (conv : IntConversion) {d : ℕ} (h : d < 16) :
    digitChar d = conv.digit d ↔ d < 10 ∨ conv = .X := by
  cases conv <;> revert d <;> decide

/-- The digits of a conversion, and those that are written for other digits. -/
theorem digit_inj (conv : IntConversion) :
    ∀ m < 16, ∀ n < 16, digitChar m = conv.digit n → m = n := by
  cases conv <;> decide

/-- The least value is its own negative. -/
theorem toInt_neg_eq {value : Int64} (h : value.toInt < 0) :
    (-value).toInt = if value.toInt = -2 ^ 63 then -2 ^ 63 else -value.toInt := by
  have hle := value.le_toInt
  rw [Int64.toInt_neg]
  split_ifs with hmin
  · rw [hmin]
    decide
  · exact Int.bmod_eq_of_le (by omega) (by omega)

/-- The digits of a value, none if it is negative. -/
theorem writtenDigits_eq (value : Int64) {base : ℕ} (hb : 1 < base) :
    (if value = 0 then [chr '0'] else writeDigits digitChar base value.toInt.toNat []) =
      if 0 ≤ value.toInt then numeral digitChar base value.toInt.natAbs else [] := by
  have hzero : value = 0 ↔ value.toInt = 0 := Int64.toInt_inj.symm
  rw [writeDigits_eq digitChar hb, List.append_nil]
  rcases lt_trichotomy value.toInt 0 with hneg | heq | hpos
  · rw [if_neg (fun h => hneg.ne (hzero.mp h)), if_neg (Int.not_le.mpr hneg),
      Int.toNat_of_nonpos hneg.le, Nat.digits_zero]
    rfl
  · rw [if_pos (hzero.mpr heq), if_pos heq.ge, heq]
    rfl
  · rw [if_neg (fun h => hpos.ne' (hzero.mp h)), if_pos hpos.le,
      numeral_of_pos _ _ (Int.natAbs_pos.mpr hpos.ne')]
    congr 4
    omega

/-- **What `format_int` writes** without flags and precision. -/
theorem intCells_eq (value : Int64) {base : ℕ} (hb : 1 < base) :
    intCells value base (-1) 0 =
      if 0 ≤ value.toInt then numeral digitChar base value.toInt.natAbs
      else if base = 10 then
        chr '-' :: if value.toInt = -2 ^ 63 then [] else numeral digitChar 10 value.toInt.natAbs
      else [] := by
  have hone (k : ℕ) : ((-1 : Int32).toInt - k).toNat = 0 := by
    have hone : (-1 : Int32).toInt = -1 := rfl
    omega
  have hlt : value < 0 ↔ value.toInt < 0 := Int64.lt_iff_toInt_lt
  have hflags : ¬ ((0 : UInt32) &&& 1 ≠ 0) ∧ ¬ ((0 : UInt32) &&& 2 ≠ 0) := by decide
  simp only [intCells, hone, List.replicate_zero, List.nil_append, hlt, writtenDigits_eq _ hb,
    if_neg hflags.1, if_neg hflags.2]
  by_cases hneg : value.toInt < 0
  · have hle : ¬ 0 ≤ value.toInt := Int.not_le.mpr hneg
    by_cases hten : base = 10
    · subst hten
      simp only [hneg, hle, and_self, if_true, if_false, toInt_neg_eq hneg]
      split_ifs with hmin hnonneg hnonneg
      · exact absurd hnonneg (by decide)
      · rfl
      · rw [Int.natAbs_neg]
        rfl
      · omega
    · simp only [hten, hle, and_false, if_false, List.append_nil]
  · have hle : 0 ≤ value.toInt := Int.not_lt.mp hneg
    simp only [hneg, hle, false_and, if_true, if_false, List.nil_append]

/-- A numeral has no minus sign. -/
theorem minus_notMem_numeral {digit : ℕ → UInt8} {base n : ℕ} (hb : 1 < base)
    (hdigit : ∀ d < base, digit d ≠ chr '-') : chr '-' ∉ numeral digit base n := by
  intro h
  obtain ⟨d, hd, heq⟩ := List.mem_map.mp h
  exact hdigit d (lt_of_mem_numeralDigits hb hd) heq

theorem IntConversion.one_lt_base (conv : IntConversion) : 1 < conv.base := by
  cases conv <;> decide

theorem IntConversion.base_le (conv : IntConversion) : conv.base ≤ 16 := by
  cases conv <;> decide

/-- The digits that are written are a numeral of the conversion. -/
theorem written_eq_iff (conv : IntConversion) (m n : ℕ) :
    numeral digitChar conv.base m = numeral conv.digit conv.base n ↔
      m = n ∧ ∀ d ∈ numeralDigits conv.base n, digitChar d = conv.digit d :=
  numeral_eq_iff conv.one_lt_base fun x hx y hy =>
    digit_inj conv x (hx.trans_le conv.base_le) y (hy.trans_le conv.base_le)

/-- **When what is written is the numeral of a number.** -/
theorem cells_eq_iff (conv : IntConversion) (value : Int64) (v : ℤ) :
    intCells value conv.base (-1) 0 = signedNumeral conv.digit conv.base v ↔
      value.toInt = v ∧ v ≠ -2 ^ 63 ∧ (v < 0 → conv.base = 10) ∧
      ∀ d ∈ numeralDigits conv.base v.natAbs, digitChar d = conv.digit d := by
  have hminus (n : ℕ) : chr '-' ∉ numeral digitChar conv.base n :=
    minus_notMem_numeral conv.one_lt_base fun d hd => (digitChar_ne (hd.trans_le conv.base_le)).1
  have hminus' (n : ℕ) : chr '-' ∉ numeral conv.digit conv.base n :=
    minus_notMem_numeral conv.one_lt_base fun d hd => digit_ne conv (hd.trans_le conv.base_le)
  rw [intCells_eq value conv.one_lt_base, signedNumeral]
  split_ifs with hw hv hten hmin hv hv hv
  · -- a sign is expected, and there is none
    refine iff_of_false (fun h => hminus value.toInt.natAbs ?_) fun h => ?_
    · rw [h]
      exact List.mem_cons_self
    · omega
  · rw [List.nil_append, written_eq_iff]
    constructor
    · rintro ⟨heq, hdigits⟩
      exact ⟨by omega, by omega, fun h => absurd h hv, hdigits⟩
    · rintro ⟨heq, -, -, hdigits⟩
      exact ⟨by omega, hdigits⟩
  · -- the least value is written as a sign alone
    refine iff_of_false (fun h => numeral_ne_nil conv.digit conv.base v.natAbs ?_) fun h => ?_
    · exact (List.cons.inj h).2.symm
    · exact h.2.1 (h.1.symm.trans hmin)
  · refine iff_of_false (fun h => hminus' v.natAbs ?_) fun h => ?_
    · rw [List.nil_append] at h
      rw [← h]
      exact List.mem_cons_self
    · omega
  · rw [List.singleton_append, List.cons_inj_right, ← hten, written_eq_iff]
    constructor
    · rintro ⟨heq, hdigits⟩
      exact ⟨by omega, by omega, fun _ => rfl, hdigits⟩
    · rintro ⟨heq, -, -, hdigits⟩
      exact ⟨by omega, hdigits⟩
  · refine iff_of_false (fun h => hminus' v.natAbs ?_) fun h => ?_
    · rw [List.nil_append] at h
      rw [← h]
      exact List.mem_cons_self
    · omega
  · exact iff_of_false (fun h => List.cons_ne_nil _ _ h.symm) fun h => hten (h.2.2.1 hv)
  · refine iff_of_false (fun h => numeral_ne_nil conv.digit conv.base v.natAbs h.symm) fun h => ?_
    omega

theorem IntConversion.le_base (conv : IntConversion) : 8 ≤ conv.base := by
  cases conv <;> decide

/-- What is written fits in the local buffer. -/
theorem intCells_length (value : Int64) (conv : IntConversion) :
    (intCells value conv.base (-1) 0).length ≤ 64 := by
  have hlow := value.le_toInt
  have hhigh := value.toInt_lt
  have hlen : (numeral digitChar conv.base value.toInt.natAbs).length ≤ 22 :=
    numeral_length _ conv.one_lt_base (by decide)
      (calc value.toInt.natAbs < 8 ^ 22 := by omega
        _ ≤ conv.base ^ 22 := Nat.pow_le_pow_left conv.le_base 22)
  rw [intCells_eq value conv.one_lt_base]
  split_ifs with hw hten hmin
  · omega
  · exact Nat.succ_le_succ (Nat.zero_le _)
  · rw [← hten, List.length_cons]
    omega
  · exact Nat.zero_le _

/-- There is no zero in what is written. -/
theorem zero_notMem_intCells (value : Int64) {base : ℕ} (hbase : 1 < base) (hle : base ≤ 16)
    (precision : Int32) (flags : UInt32) : 0 ∉ intCells value base precision flags := by
  have hchars : (0 : UInt8) ≠ chr '0' ∧ (0 : UInt8) ≠ chr '-' ∧ (0 : UInt8) ≠ chr '+' ∧
      (0 : UInt8) ≠ chr ' ' := by decide
  obtain ⟨hzero, hminus, hplus, hspace⟩ := hchars
  unfold intCells
  dsimp only
  generalize (if value < 0 ∧ base = 10 then -value else value) = magnitude
  have hdigits : 0 ∉ (if magnitude = 0 then [chr '0']
      else writeDigits digitChar base magnitude.toInt.toNat []) := by
    split_ifs
    · simpa using hzero
    · rw [writeDigits_eq digitChar hbase, List.append_nil]
      intro h
      obtain ⟨d, hd, heq⟩ := List.mem_map.mp h
      have hlt : d < base := Nat.digits_lt_base hbase (List.mem_reverse.mp hd)
      exact (digitChar_ne (hlt.trans_le hle)).2 heq
  have hsign : 0 ∉ (if value < 0 ∧ base = 10 then [chr '-'] else if flags &&& 1 ≠ 0 then [chr '+']
      else if flags &&& 2 ≠ 0 then [chr ' '] else []) := by
    split_ifs <;> simp [hminus, hplus, hspace]
  have hzeros : ∀ n, 0 ∉ List.replicate n (chr '0') := fun n h => hzero (List.eq_of_mem_replicate h)
  simp only [List.mem_append, not_or]
  exact ⟨hzeros _, hsign, hdigits⟩

theorem untilZero_append {cells : Str} (h : 0 ∉ cells) (behind : Str) :
    untilZero (cells ++ behind) = (untilZero behind).map (cells ++ ·) := by
  have hne : ∀ c ∈ cells, (c != 0) = true := fun c hc => bne_iff_ne.mpr fun h0 => h (h0 ▸ hc)
  simp only [untilZero, List.mem_append, h, false_or, List.takeWhile_append_of_pos hne]
  split_ifs <;> rfl

theorem untilZero_zero (behind : Str) : untilZero (0 :: behind) = some [] := by
  simp [untilZero]

theorem untilZero_single {cells : Str} (h : 0 ∉ cells) :
    untilZero (cells ++ [0]) = some cells := by
  rw [untilZero_append h, untilZero_zero, Option.map_some, List.append_nil]

/-- Without flags, width and precision the characters are those that have been written, and
what is behind them. -/
theorem formatInt_plain (value : Int64) (conv : IntConversion) (behind : Str) :
    formatInt value conv.base 0 (-1) 0 behind =
      (untilZero behind).map (intCells value conv.base (-1) 0 ++ ·) := by
  have hlen := intCells_length value conv
  have hwidth : ((0 : Int32).toInt - (intCells value conv.base (-1) 0).length).toNat = 0 := by
    have hzero : (0 : Int32).toInt = 0 := rfl
    omega
  have hflags : ¬ ((0 : UInt32) &&& 4 ≠ 0) := by decide
  rw [formatInt, if_neg (Nat.not_lt.mpr hlen), if_neg hflags, hwidth,
    untilZero_append (zero_notMem_intCells value conv.one_lt_base conv.base_le _ _), Option.map_map]
  rfl

/-! ### Which conversions are right -/

/-- The length modifiers of 64-bit types that `vprintf_internal` reads as `int`. -/
theorem bitsRead_eq (length : LengthModifier) :
    ((length = .j ∨ length = .z ∨ length = .t) ∧ length.bits = 64 ∧ length.bitsRead = 32) ∨
      (¬ (length = .j ∨ length = .z ∨ length = .t) ∧ length.bitsRead = length.bits ∧
        2 ^ length.bits ≤ 2 ^ 64) := by
  cases length <;> decide

theorem bmod_eq_self_iff (n : ℕ) :
    (n : ℤ).bmod (2 ^ 32) = (n : ℤ).bmod (2 ^ 64) ↔
      -2 ^ 31 ≤ (n : ℤ).bmod (2 ^ 64) ∧ (n : ℤ).bmod (2 ^ 64) < 2 ^ 31 := by
  have hlow : -2 ^ 31 ≤ (n : ℤ).bmod (2 ^ 32) := Int.le_bmod (by decide)
  have hhigh : (n : ℤ).bmod (2 ^ 32) < 2 ^ 31 := Int.bmod_lt (by decide)
  constructor
  · intro h
    rw [← h]
    exact ⟨hlow, hhigh⟩
  · rintro ⟨h₁, h₂⟩
    calc (n : ℤ).bmod (2 ^ 32) = ((n : ℤ).bmod (2 ^ 64)).bmod (2 ^ 32) :=
          (Int.bmod_bmod_of_dvd (by decide)).symm
      _ = (n : ℤ).bmod (2 ^ 64) := Int.bmod_eq_of_le (by omega) (by omega)

/-- A natural number below 2⁶⁴ is itself as a signed one exactly if it is below 2⁶³. -/
theorem bmod_natCast_eq_iff {u v : ℕ} (hu : u < 2 ^ 64) :
    (u : ℤ).bmod (2 ^ 64) = v ↔ u = v ∧ v < 2 ^ 63 := by
  rw [Int.bmod_def]
  split_ifs <;> omega

theorem readValue_signed {conv : IntConversion} (hsigned : conv.signed = true)
    (length : LengthModifier) (slot : UInt64) :
    (readValue conv length slot).toInt = argument conv length slot ∧
        argument conv length slot ≠ -2 ^ 63 ↔ Fits conv length (argument conv length slot) := by
  have hlow := (readValue conv length slot).le_toInt
  have hhigh := (readValue conv length slot).toInt_lt
  have hread : (readValue conv length slot).toInt =
      (slot.toNat : ℤ).bmod (2 ^ length.bitsRead) := by
    rw [readValue, if_pos hsigned, toInt_signedArg]
  have harg : argument conv length slot = (slot.toNat : ℤ).bmod (2 ^ length.bits) :=
    if_pos hsigned
  rw [hread] at hlow hhigh
  rw [Fits, if_pos hsigned, hread, harg]
  obtain ⟨hjzt, hbits, h32⟩ | ⟨hjzt, hsame, -⟩ := bitsRead_eq length
  · rw [hbits, h32, bmod_eq_self_iff]
    constructor
    · rintro ⟨⟨h₁, h₂⟩, -⟩
      exact ⟨⟨by omega, by omega⟩, fun _ => ⟨h₁, h₂⟩⟩
    · rintro ⟨⟨h₁, -⟩, h⟩
      exact ⟨h hjzt, h₁.ne'⟩
  · rw [hsame] at hlow hhigh ⊢
    constructor
    · rintro ⟨-, h⟩
      exact ⟨⟨lt_of_le_of_ne hlow (Ne.symm h), hhigh⟩, fun h => absurd h hjzt⟩
    · rintro ⟨⟨h, -⟩, -⟩
      exact ⟨rfl, h.ne'⟩

theorem readValue_unsigned {conv : IntConversion} (hsigned : ¬ conv.signed = true)
    (length : LengthModifier) (slot : UInt64) :
    (readValue conv length slot).toInt = argument conv length slot ∧
        argument conv length slot ≠ -2 ^ 63 ↔ Fits conv length (argument conv length slot) := by
  have hslot : slot.toNat < 2 ^ 64 := slot.toNat_lt
  have hread : (readValue conv length slot).toInt =
      ((slot.toNat % 2 ^ length.bitsRead : ℕ) : ℤ).bmod (2 ^ 64) := by
    rw [readValue, if_neg hsigned, toInt_toInt64, toNat_unsignedArg]
  have harg : argument conv length slot = (slot.toNat % 2 ^ length.bits : ℕ) := by
    rw [argument, if_neg hsigned]
    norm_cast
  rw [Fits, if_neg hsigned, hread, harg,
    bmod_natCast_eq_iff ((Nat.mod_le _ _).trans_lt hslot)]
  obtain ⟨hjzt, hbits, h32⟩ | ⟨hjzt, hsame, -⟩ := bitsRead_eq length
  · rw [hbits, h32]
    simp only [hjzt, true_implies]
    omega
  · rw [hsame]
    constructor
    · rintro ⟨⟨-, h⟩, -⟩
      exact ⟨⟨by omega, by exact_mod_cast h⟩, fun h => absurd h hjzt⟩
    · rintro ⟨⟨-, h⟩, -⟩
      exact ⟨⟨rfl, by exact_mod_cast h⟩, by omega⟩

/-- **When the argument is what is read**, but for the least number. -/
theorem readValue_eq_iff (conv : IntConversion) (length : LengthModifier) (slot : UInt64) :
    (readValue conv length slot).toInt = argument conv length slot ∧
        argument conv length slot ≠ -2 ^ 63 ↔ Fits conv length (argument conv length slot) := by
  by_cases hsigned : conv.signed = true
  · exact readValue_signed hsigned length slot
  · exact readValue_unsigned hsigned length slot

/-- A number below zero is a signed one. -/
theorem base_of_neg {conv : IntConversion} {length : LengthModifier} {slot : UInt64}
    (h : argument conv length slot < 0) : conv.base = 10 := by
  rw [argument] at h
  split_ifs at h with hsigned
  · cases conv <;> first | rfl | cases hsigned
  · have := Int.emod_nonneg (slot.toNat : ℤ) (b := 2 ^ length.bits) (by positivity)
    omega

/-- The digits are those of the conversion, but for the letters of `x`. -/
theorem digits_iff (conv : IntConversion) (n : ℕ) :
    (∀ d ∈ numeralDigits conv.base n, digitChar d = conv.digit d) ↔
      (conv = .x → ∀ d ∈ numeralDigits 16 n, d < 10) := by
  have hlt {d : ℕ} (hd : d ∈ numeralDigits conv.base n) : d < conv.base :=
    lt_of_mem_numeralDigits conv.one_lt_base hd
  have hiff {d : ℕ} (hd : d ∈ numeralDigits conv.base n) :
      digitChar d = conv.digit d ↔ d < 10 ∨ conv = .X :=
    digitChar_eq_iff conv ((hlt hd).trans_le conv.base_le)
  constructor
  · rintro h rfl d hd
    exact ((hiff hd).mp (h d hd)).resolve_right (by decide)
  · intro h d hd
    rw [hiff hd]
    cases conv with
    | x => exact Or.inl (h rfl d hd)
    | X => exact Or.inr rfl
    | d => exact Or.inl (hlt hd)
    | i => exact Or.inl (hlt hd)
    | u => exact Or.inl (hlt hd)
    | o => exact Or.inl ((hlt hd).trans (by decide))

theorem parseSpec_int (length : LengthModifier) (conv : IntConversion) (rest : Str)
    (args : List UInt64) :
    parseSpec (length.chars ++ conv.specifier :: rest) args =
      some (⟨0, 0, -1, length⟩, conv.specifier :: rest, args) := by
  cases length <;> cases conv <;> rfl

theorem convert_int (mem : PrintfMemory) (left : ℕ) (length : LengthModifier)
    (conv : IntConversion) (slot : UInt64) (args : List UInt64) (count : Int32) :
    convert mem left ⟨0, 0, -1, length⟩ conv.specifier (slot :: args) count =
      (formatInt (readValue conv length slot) conv.base 0 (-1) 0 (mem.behind left)).map
        fun text => (⟨text, 1, none⟩, args) := by
  cases conv <;> rfl

/-- The loop comes to the conversion. -/
theorem vprintfLoop_int (mem : PrintfMemory) (conv : IntConversion) (length : LengthModifier)
    (slot : UInt64) (rest : Str) (args : List UInt64) (st : PrintfState) :
    vprintfLoop mem (chr '%' :: (length.chars ++ conv.specifier :: rest)) (slot :: args) st =
      (untilZero (mem.behind rest.length)).bind fun behind =>
        vprintfLoop mem rest args (st.print
          ⟨intCells (readValue conv length slot) conv.base (-1) 0 ++ behind, 1, none⟩) := by
  have hend : (chr '%' :: (length.chars ++ conv.specifier :: rest)).head? ≠ some 0 := by
    rw [List.head?_cons]
    decide
  rw [vprintfLoop_next hend]
  simp only [nextPiece, if_true, parseSpec_int, Option.bind_some, convert_int, formatInt_plain,
    Option.map_map, Option.bind_map]
  rfl

/-- With a stream that has nothing, and nothing after the conversion, the characters are in the
stream. -/
theorem PrintsNumeral.written {conv : IntConversion} {length : LengthModifier} {slot : UInt64}
    {b : UInt8} (h : PrintsNumeral conv length slot b) (tail : Str) :
    (untilZero (b :: tail)).map
        (intCells (readValue conv length slot) conv.base (-1) 0 ++ ·) =
      some (signedNumeral conv.digit conv.base (argument conv length slot)) := by
  let st : PrintfState := ⟨⟨fun _ => none, 0, 0, some []⟩, 0, []⟩
  have hst (text : Str) : (st.print ⟨text, 1, none⟩).buf.stream = some text := by
    rw [PrintfState.print, bufferPuts_stream rfl]
    rfl
  have hprint := h ⟨fun _ => [], fun _ => b :: tail⟩ [0] tail [] st rfl
  have hend : ([0] : Str).head? = some 0 := rfl
  simp only [vprintfLoop_int, vprintfLoop_end hend] at hprint
  obtain ⟨behind, hbehind, hsame⟩ := Option.bind_eq_some_iff.mp hprint
  have hstream := congrArg (fun st : PrintfState => st.buf.stream) (Option.some.inj hsame)
  simp only [hst] at hstream
  rw [hbehind]
  exact hstream

/-- What is written is the numeral of the argument exactly if this is printable. -/
theorem cells_eq_iff_printable (conv : IntConversion) (length : LengthModifier) (slot : UInt64) :
    intCells (readValue conv length slot) conv.base (-1) 0 =
        signedNumeral conv.digit conv.base (argument conv length slot) ↔
      Printable conv length (argument conv length slot) := by
  rw [cells_eq_iff, Printable, ← readValue_eq_iff, ← digits_iff]
  constructor
  · rintro ⟨hread, hmin, -, hdigits⟩
    exact ⟨⟨hread, hmin⟩, hdigits⟩
  · rintro ⟨⟨hread, hmin⟩, hdigits⟩
    exact ⟨hread, hmin, base_of_neg, hdigits⟩

/-- **Integer conversions**: the numeral of the argument is printed exactly if there happens to
be a zero behind the local buffer of `format_int` and the argument is printable. -/
theorem prints_numeral_iff (conv : IntConversion) (length : LengthModifier) (slot : UInt64)
    (b : UInt8) :
    PrintsNumeral conv length slot b ↔
      b = 0 ∧ Printable conv length (argument conv length slot) := by
  have hprintable := cells_eq_iff_printable conv length slot
  constructor
  · intro h
    have hb : b = 0 := by
      -- one byte behind the buffer and two are printed the same
      by_contra hb
      have hmem : 0 ∉ [b] ∧ 0 ∉ [b, b] := by simpa using Ne.symm hb
      have hone : untilZero [b, 0] = some [b] := untilZero_single hmem.1
      have htwo : untilZero [b, b, 0] = some [b, b] := untilZero_single hmem.2
      have hsame := (h.written [0]).trans (h.written [b, 0]).symm
      rw [hone, htwo, Option.map_some, Option.map_some, Option.some_inj] at hsame
      exact absurd (List.append_cancel_left hsame) (by simp)
    subst hb
    refine ⟨rfl, hprintable.mp ?_⟩
    have hwritten := h.written []
    rw [untilZero_zero, Option.map_some, List.append_nil] at hwritten
    exact Option.some.inj hwritten
  · rintro ⟨rfl, hok⟩ mem rest tail args st hbehind
    rw [vprintfLoop_int, hbehind, untilZero_zero, Option.bind_some, List.append_nil,
      hprintable.mpr hok]

/-- **`%x` prints capital letters**: 255 is FF. -/
theorem lower_case_is_upper : ¬ PrintsNumeral .x .none 255 0 := by
  intro h
  have hwritten := h.written []
  rw [untilZero_zero, Option.map_some, List.append_nil, Option.some_inj] at hwritten
  have hprintable := (cells_eq_iff_printable .x .none 255).mp hwritten
  have hdigits : numeralDigits 16 (argument .x .none 255).natAbs = [15, 15] := by
    simp [argument, numeralDigits, IntConversion.signed, LengthModifier.bits]
  have hten : 15 < 10 := hprintable.2 rfl 15 (by rw [hdigits]; exact List.mem_cons_self)
  exact absurd hten (by decide)

end PrismaticOS.Libc
