import PrismaticOS.Kernel.ConsolePrintf
import PrismaticOS.Libc.IntConversions

/-!
# Numbers on the console

The conversions `%d`, `%u`, `%x`, `%ld`, `%lu`, `%lx` and `%p` of `console_printf`.

## The model

An argument is eight bytes. The type that the conversion names says what number it is: 32 bits, or
64 with an `l` and for a pointer.

## What is proved

* `consolePrintInt_eq`, `consolePrintUint_eq` — what the two functions print.
* `prints_number_iff` — the exact condition for a conversion to print the numeral of its argument.
* `least_int_is_minus` — `%d` prints the least `int` as a minus sign.
-/

namespace PrismaticOS.Kernel

open PrismaticOS.Library PrismaticOS.Libc

/-! ### What should be printed -/

/-- The conversions of a number. -/
inductive NumberConversion where
  /-- Of an `int`. -/
  | d
  /-- Of an `unsigned`. -/
  | u | x
  /-- Of a `long`. -/
  | ld
  /-- Of an `unsigned long`. -/
  | lu | lx
  /-- Of a pointer. -/
  | p
  deriving DecidableEq

namespace NumberConversion

/-- How it is written, after the `%`. -/
def chars : NumberConversion → Str
  | .d => str "d"
  | .u => str "u"
  | .x => str "x"
  | .ld => str "ld"
  | .lu => str "lu"
  | .lx => str "lx"
  | .p => str "p"

/-- The argument as a number. -/
def argument (conv : NumberConversion) (slot : UInt64) : ℤ :=
  match conv with
  | .d => slot.toUInt32.toInt32.toInt
  | .u | .x => slot.toUInt32.toNat
  | .ld => slot.toInt64.toInt
  | .lu | .lx | .p => slot.toNat

/-- The base of the numeral. -/
def base : NumberConversion → ℕ
  | .d | .u | .ld | .lu => 10
  | .x | .lx | .p => 16

/-- What is in front of it. -/
def before : NumberConversion → Str
  | .p => str "0x"
  | _ => []

/-- The text that is asked for, with lower-case digits. -/
def text (conv : NumberConversion) (slot : UInt64) : Str :=
  conv.before ++ signedNumeral (digitFrom 'a') conv.base (conv.argument slot)

/-- The numbers that are printed: all that an `int` or a `uint32_t` can have, but not the least
`int`. -/
def Printable (conv : NumberConversion) (value : ℤ) : Prop :=
  match conv with
  | .d | .ld => -2 ^ 31 < value ∧ value < 2 ^ 31
  | .u | .x | .lu | .lx | .p => value < 2 ^ 32

end NumberConversion

/-- A turn of the loop of `console_printf` passes the characters to `console_putc`. -/
def Passes (mem : UInt64 → Str) (format : Str) (slot : UInt64) (chars rest : Str) : Prop :=
  ∃ print, consoleItem mem format = some (.conversion print, rest) ∧ print slot = chars

section
variable {conv : NumberConversion} {mem : UInt64 → Str} {rest : Str} {v w : ℤ}

/-! ### What is printed -/

theorem digitChar_decimal {n : ℕ} (h : n < 10) : digitChar n = digitFrom 'a' n := by
  revert n
  decide

theorem hexDigit_eq {n : ℕ} (h : n < 16) : hexDigit n = digitFrom 'a' n := by
  revert n
  decide

/-- Different digits are written differently. -/
theorem digitFrom_inj : ∀ m < 16, ∀ n < 16, digitFrom 'a' m = digitFrom 'a' n → m = n := by
  decide

theorem digitFrom_ne_minus : ∀ n < 16, digitFrom 'a' n ≠ chr '-' := by
  decide

/-- The loop over the digits of a number that is not zero. -/
theorem writeDigits_numeral (digit : ℕ → UInt8) {base n : ℕ} (hb : 1 < base) (hn : n ≠ 0) :
    writeDigits digit base n [] = numeral digit base n := by
  rw [writeDigits_eq digit hb, List.append_nil, numeral_of_pos digit base (Nat.pos_of_ne_zero hn)]

/-- The digits of another alphabet. -/
theorem numeral_congr {digit digit' : ℕ → UInt8} {base : ℕ} (hb : 1 < base)
    (h : ∀ n < base, digit n = digit' n) (n : ℕ) : numeral digit base n = numeral digit' base n :=
  List.map_congr_left fun d hd => h d (lt_of_mem_numeralDigits hb hd)

/-- **What `console_print_uint` prints.** -/
theorem consolePrintUint_eq (value : UInt32) {base : ℕ} (hb : 1 < base) (hle : base ≤ 16) :
    consolePrintUint value base = signedNumeral (digitFrom 'a') base value.toNat := by
  have hpos : ¬ (value.toNat : ℤ) < 0 := Int.not_lt.mpr (Int.natCast_nonneg _)
  rw [signedNumeral, if_neg hpos, List.nil_append, Int.natAbs_natCast,
    ← numeral_congr hb (fun n hn => hexDigit_eq (hn.trans_le hle)), consolePrintUint]
  split_ifs with hzero
  · rw [hzero]
    rfl
  · exact writeDigits_numeral hexDigit hb fun h => hzero (UInt32.toNat_inj.mp h)

/-- The least `int` is its own negative. -/
theorem toInt32_neg {value : Int32} (h : value.toInt < 0) :
    (-value).toInt = if value.toInt = -2 ^ 31 then -2 ^ 31 else -value.toInt := by
  have hle := value.le_toInt
  rw [Int32.toInt_neg]
  split_ifs with hmin
  · rw [hmin]
    decide
  · exact Int.bmod_eq_of_le (by omega) (by omega)

/-- **What `console_print_int` prints**: for the least `int` nothing but the sign. -/
theorem consolePrintInt_eq (value : Int32) : consolePrintInt value 10 =
    if value.toInt = -2 ^ 31 then [chr '-'] else signedNumeral (digitFrom 'a') 10 value.toInt := by
  have hneg : value < 0 ↔ value.toInt < 0 := Int32.lt_iff_toInt_lt
  have hzero : value = 0 ↔ value.toInt = 0 := Int32.toInt_inj.symm
  have hten (n : ℕ) (hn : n ≠ 0) : writeDigits digitChar 10 n [] = numeral (digitFrom 'a') 10 n := by
    rw [writeDigits_numeral digitChar (by decide) hn]
    exact numeral_congr (by decide) (fun d hd => digitChar_decimal hd) n
  unfold consolePrintInt
  simp only [hneg, hzero, and_true]
  rcases lt_trichotomy value.toInt 0 with hlt | heq | hgt
  · rw [if_neg hlt.ne, if_pos hlt, if_pos hlt, toInt32_neg hlt, signedNumeral, if_pos hlt]
    split_ifs with hmin
    · rw [writeDigits_eq digitChar (by decide)]
      rfl
    · have habs : (-value.toInt).toNat = value.toInt.natAbs := by omega
      rw [habs, hten _ (Int.natAbs_ne_zero.mpr hlt.ne)]
  · rw [heq]
    rfl
  · have hmin : value.toInt ≠ -2 ^ 31 := by omega
    have habs : value.toInt.toNat = value.toInt.natAbs := by omega
    rw [if_neg hgt.ne', if_neg hgt.not_gt, if_neg hgt.not_gt, if_neg hmin, signedNumeral,
      if_neg hgt.not_gt, habs, hten _ (Int.natAbs_ne_zero.mpr hgt.ne')]

/-- A number has one numeral. -/
theorem signedNumeral_inj {base : ℕ} (hb : 1 < base) (hle : base ≤ 16)
    (h : signedNumeral (digitFrom 'a') base v = signedNumeral (digitFrom 'a') base w) : v = w := by
  have hminus (n : ℕ) : chr '-' ∉ numeral (digitFrom 'a') base n :=
    minus_notMem_numeral hb fun d hd => digitFrom_ne_minus d (hd.trans_le hle)
  have hnumeral {m n : ℕ} (heq : numeral (digitFrom 'a') base m = numeral (digitFrom 'a') base n) :
      m = n :=
    ((numeral_eq_iff hb fun x hx y hy =>
      digitFrom_inj x (hx.trans_le hle) y (hy.trans_le hle)).mp heq).1
  unfold signedNumeral at h
  split_ifs at h with hv hw hw
  · have habs := hnumeral (List.cons.inj h).2
    omega
  · rw [List.nil_append] at h
    exact absurd (h ▸ List.mem_cons_self) (hminus w.natAbs)
  · rw [List.nil_append] at h
    exact absurd (h ▸ List.mem_cons_self) (hminus v.natAbs)
  · have habs := hnumeral h
    omega

/-- There is a digit in a numeral. -/
theorem signedNumeral_ne_minus {base : ℕ} (hb : 1 < base) (hle : base ≤ 16) :
    [chr '-'] ≠ signedNumeral (digitFrom 'a') base v := by
  intro h
  unfold signedNumeral at h
  split_ifs at h
  · exact numeral_ne_nil _ _ _ (List.cons.inj h).2.symm
  · rw [List.nil_append] at h
    have hminus : chr '-' ∉ numeral (digitFrom 'a') base v.natAbs :=
      minus_notMem_numeral hb fun d hd => digitFrom_ne_minus d (hd.trans_le hle)
    exact hminus (h ▸ List.mem_cons_self)

/-! ### The conversions -/

/-- What the conversion passes to `console_putc`. -/
def NumberConversion.printed (conv : NumberConversion) (slot : UInt64) : Str :=
  match conv with
  | .d | .ld => consolePrintInt slot.toUInt32.toInt32 10
  | .u | .lu => consolePrintUint slot.toUInt32 10
  | .x | .lx => consolePrintUint slot.toUInt32 16
  | .p => str "0x" ++ consolePrintUint slot.toUInt32 16

/-- The turn of the loop. -/
theorem passes_iff (mem : UInt64 → Str) (conv : NumberConversion) (slot : UInt64)
    (chars rest : Str) :
    Passes mem (chr '%' :: (conv.chars ++ rest)) slot chars rest ↔ conv.printed slot = chars := by
  have hitem : consoleItem mem (chr '%' :: (conv.chars ++ rest)) =
      some (.conversion conv.printed, rest) := by
    cases conv <;> rfl
  constructor
  · rintro ⟨print, hprint, hchars⟩
    rw [hitem] at hprint
    cases hprint
    exact hchars
  · exact fun h => ⟨_, hitem, h⟩

/-- The argument is narrowed to an `int`. -/
theorem signed_iff (slot : UInt64) (hslot : slot.toUInt32.toInt32.toInt = v.bmod (2 ^ 32)) :
    consolePrintInt slot.toUInt32.toInt32 10 = signedNumeral (digitFrom 'a') 10 v ↔
      -2 ^ 31 < v ∧ v < 2 ^ 31 := by
  have hlow : -2 ^ 31 ≤ v.bmod (2 ^ 32) := Int.le_bmod (by decide)
  have hhigh : v.bmod (2 ^ 32) < 2 ^ 31 := Int.bmod_lt (by decide)
  rw [consolePrintInt_eq, hslot]
  split_ifs with hmin
  · refine iff_of_false (signedNumeral_ne_minus (by decide) (by decide)) ?_
    rintro ⟨hv, hv'⟩
    rw [Int.bmod_eq_of_le (by omega) (by omega)] at hmin
    exact hv.ne' hmin
  · constructor
    · intro h
      rw [← signedNumeral_inj (by decide) (by decide) h]
      exact ⟨lt_of_le_of_ne hlow (Ne.symm hmin), hhigh⟩
    · rintro ⟨hv, hv'⟩
      rw [Int.bmod_eq_of_le (by omega) (by omega)]

/-- The argument is narrowed to a `uint32_t`. -/
theorem unsigned_iff (slot : UInt64) {base : ℕ} (hb : 1 < base) (hle : base ≤ 16) :
    consolePrintUint slot.toUInt32 base = signedNumeral (digitFrom 'a') base slot.toNat ↔
      (slot.toNat : ℤ) < 2 ^ 32 := by
  have hnat : slot.toUInt32.toNat = slot.toNat % 2 ^ 32 := UInt64.toNat_toUInt32 slot
  rw [consolePrintUint_eq _ hb hle, hnat]
  constructor
  · intro h
    have heq := signedNumeral_inj hb hle h
    omega
  · intro h
    rw [Nat.mod_eq_of_lt (by omega)]

/-- **Numbers on the console**: a conversion passes the numeral of its argument to `console_putc`
exactly if an `int` or a `uint32_t` can have the number, and it is not the least `int`. -/
theorem prints_number_iff (mem : UInt64 → Str) (conv : NumberConversion) (slot : UInt64)
    (rest : Str) :
    Passes mem (chr '%' :: (conv.chars ++ rest)) slot (conv.text slot) rest ↔
      conv.Printable (conv.argument slot) := by
  have hint : slot.toUInt32.toInt32.toInt = (slot.toNat : ℤ).bmod (2 ^ 32) := by
    rw [toInt_toInt32, UInt64.toNat_toUInt32, Int.natCast_mod]
    exact Int.emod_bmod ..
  have hunsigned : (slot.toUInt32.toNat : ℤ) < 2 ^ 32 := by
    exact_mod_cast slot.toUInt32.toNat_lt
  rw [passes_iff]
  cases conv with
  | d =>
    refine signed_iff slot ?_
    exact (Int.bmod_eq_of_le slot.toUInt32.toInt32.le_toInt slot.toUInt32.toInt32.toInt_lt).symm
  | ld =>
    refine signed_iff slot ?_
    rw [hint, NumberConversion.argument, toInt_toInt64, Int.bmod_bmod_of_dvd (by decide)]
  | u => exact iff_of_true (consolePrintUint_eq _ (by decide) (by decide)) hunsigned
  | x => exact iff_of_true (consolePrintUint_eq _ (by decide) (by decide)) hunsigned
  | lu => exact unsigned_iff slot (by decide) (by decide)
  | lx => exact unsigned_iff slot (by decide) (by decide)
  | p =>
    rw [NumberConversion.printed, NumberConversion.text, NumberConversion.before,
      List.append_right_inj]
    exact unsigned_iff slot (by decide) (by decide)

/-- `%d` prints the least `int` as a minus sign without digits. -/
theorem least_int_is_minus :
    Passes (fun _ => []) (str "%d") 0x80000000 (str "-") [] ∧
      ¬ Passes (fun _ => []) (str "%d") 0x80000000 (NumberConversion.d.text 0x80000000) [] := by
  have hpasses (chars : Str) := passes_iff (fun _ => []) .d 0x80000000 chars []
  have hminus : NumberConversion.d.printed 0x80000000 = str "-" :=
    (consolePrintInt_eq _).trans (if_pos (by decide))
  refine ⟨(hpasses _).mpr hminus, fun h => ?_⟩
  exact signedNumeral_ne_minus (by decide) (by decide) (hminus.symm.trans ((hpasses _).mp h))

end

end PrismaticOS.Kernel
