import PrismaticOS.Libc.PrintfDirectives
import PrismaticOS.Libc.IntText

/-!
# Fields

The conversions `d` and `s` of `vprintf_internal`, with flags, a width and a precision.

## The model

`decimalField` and `stringField` are the texts that are asked for. The text that `d` prints depends
on what is in memory behind the local buffer of `format_int`, whose first byte is `b`.

## What is proved

* `plain_eq_iff` — when the sign, zeros and digits in the buffer are the text of `d`.
* `decimal_iff` and `string_iff` — the exact conditions for `d` and for `s`.
* `field_layout_iff` — the same of the loop over the format.
* `minus_not_padded` — `%-5d` prints no spaces.
-/

namespace PrismaticOS.Libc

open PrismaticOS.Library

/-! ### What is asked for -/

namespace Directive

/-- The least number of columns. -/
def columns (d : Directive) : ℕ := d.width.value.toNat

/-- The least number of digits. -/
def atLeast (d : Directive) : ℕ := d.limit.toNat

/-- Width and precision are not negative. -/
def Nonneg (d : Directive) : Prop := 0 ≤ d.width.value ∧ ∀ amount ∈ d.precision, 0 ≤ amount.value

/-- The width is filled up with zeros. -/
def fillsZeros (d : Directive) : Prop :=
  Flag.minus ∉ d.flags ∧ Flag.zero ∈ d.flags ∧ d.precision.isNone = true

instance (d : Directive) : Decidable d.fillsZeros := inferInstanceAs (Decidable (_ ∧ _))

end Directive

/-- The sign. -/
def fieldSign (d : Directive) (value : ℤ) : Str :=
  if value < 0 then [chr '-']
  else if .plus ∈ d.flags then [chr '+'] else if .space ∈ d.flags then [chr ' '] else []

/-- The digits. -/
def fieldDigits (value : ℤ) : Str := numeral IntConversion.d.digit 10 value.natAbs

/-- The text of `d`. -/
def decimalField (d : Directive) (value : ℤ) : Str :=
  let sign := fieldSign d value
  let digits := padLeft (chr '0') d.atLeast (fieldDigits value)
  if .minus ∈ d.flags then padRight (chr ' ') d.columns (sign ++ digits)
  else if d.fillsZeros then sign ++ padLeft (chr '0') (d.columns - sign.length) digits
  else padLeft (chr ' ') d.columns (sign ++ digits)

/-- The characters of a string that are to be printed. -/
def cutString (d : Directive) (s : Str) : Str := if d.precision.isNone then s else s.take d.atLeast

/-- The text of `s`. -/
def stringField (d : Directive) (s : Str) : Str :=
  if .minus ∈ d.flags then padRight (chr ' ') d.columns (cutString d s)
  else padLeft (chr ' ') d.columns (cutString d s)

/-- The turn of the loop for a conversion prints a text. -/
def PrintsField (mem : PrintfMemory) (d : Directive) (c : UInt8) (slot : UInt64) (rest text : Str) :
    Prop :=
  ∀ args count, ∃ added,
    nextPiece mem (chr '%' :: (d.chars ++ c :: rest)) (d.args ++ slot :: args) count =
      some (⟨text, added, none⟩, rest, args)

/-! ### When it is printed -/

/-- The condition for `d`. -/
structure DecimalPrinted (d : Directive) (value : ℤ) (b : UInt8) : Prop where
  /-- There happens to be a zero behind the buffer. -/
  zero : b = 0
  /-- It is not the least value. -/
  value_ne : value ≠ -2 ^ 63
  /-- The precision is not beyond the buffer. -/
  fits : d.atLeast ≤ 64
  /-- There is no sign, or no zero between it and the digits. -/
  sign : fieldSign d value = [] ∨ d.atLeast ≤ (fieldDigits value).length
  /-- The width asks for nothing behind the digits, and for no zeros. -/
  width : .minus ∈ d.flags ∨ d.fillsZeros →
    d.columns ≤ (fieldSign d value).length + max d.atLeast (fieldDigits value).length

/-- What `format_string` takes for the length of a string. -/
def cutLength (d : Directive) (s : Str) : ℤ :=
  let len := (s.length : ℤ).bmod (2 ^ 32)
  if 0 ≤ d.limit ∧ d.limit < len then d.limit else len

/-- The condition for `s`. -/
def StringPrinted (d : Directive) (s : Str) : Prop :=
  (cutLength d s = (cutString d s).length ∧
      (.minus ∈ d.flags → d.columns ≤ (cutString d s).length)) ∨
    (∀ c ∈ cutString d s, c = chr ' ') ∧
      ((d.width.value - cutLength d s).bmod (2 ^ 32)).toNat + (cutLength d s).toNat =
        max d.columns (cutString d s).length

section
variable {d : Directive} {value : ℤ} {b : UInt8} {s rest : Str}

/-! ### Signs and digits -/

theorem fieldSign_eq (d : Directive) (value : ℤ) : intSign 10 value d.spec.flags = fieldSign d value := by
  have hplus := d.flag_iff .plus
  have hspace := d.flag_iff .space
  simp only [Flag.bit] at hplus hspace
  simp only [intSign, fieldSign, hplus, hspace, and_true]

theorem zero_notMem_fieldSign : chr '0' ∉ fieldSign d value := by
  unfold fieldSign
  split_ifs <;> decide

theorem fieldSign_length : (fieldSign d value).length ≤ 1 := by
  unfold fieldSign
  split_ifs <;> decide

theorem isdigit_of_mem_digits {c : UInt8} (h : c ∈ fieldDigits value) : isdigit c = true := by
  have hdigit : ∀ n < 10, isdigit (IntConversion.d.digit n) = true := by decide
  obtain ⟨n, hn, rfl⟩ := List.mem_map.mp h
  exact hdigit n (lt_of_mem_numeralDigits (by decide) hn)

theorem fieldDigits_ne_nil : fieldDigits value ≠ [] := numeral_ne_nil _ _ _

theorem intDigits_decimal (h : value ≠ -2 ^ 63) : intDigits 10 value = fieldDigits value := by
  have hdigit : ∀ n < 10, digitChar n = IntConversion.d.digit n := by decide
  have hsign : 0 ≤ value ∨ 10 = 10 ∧ value ≠ -2 ^ 63 := .inr ⟨rfl, h⟩
  rw [intDigits, if_pos hsign]
  exact List.map_congr_left fun n hn => hdigit n (lt_of_mem_numeralDigits (by decide) hn)

theorem intDigits_least : intDigits 10 (-2 ^ 63) = [] := rfl

theorem fieldDigits_length (value : Int64) : (fieldDigits value.toInt).length ≤ 19 := by
  have hlow := value.le_toInt
  have hhigh := value.toInt_lt
  exact numeral_length _ (by decide) (by decide) (by omega)

theorem intDigits_length (value : Int64) : (intDigits 10 value.toInt).length ≤ 19 := by
  by_cases h : value.toInt = -2 ^ 63
  · rw [h, intDigits_least]
    exact Nat.zero_le _
  · rw [intDigits_decimal h]
    exact fieldDigits_length value

/-! ### The text in the buffer -/

/-- What is in the buffer for `d`. -/
def decimalCells (d : Directive) (value : ℤ) : Str :=
  padLeft (chr '0') d.atLeast (fieldSign d value ++ intDigits 10 value)

theorem decimalCells_eq (d : Directive) (value : Int64) :
    intCells value 10 d.spec.precision d.spec.flags = decimalCells d value.toInt := by
  rw [intCells_parts value (by decide), fieldSign_eq, d.toInt_precision]
  rfl

theorem decimalCells_fit (d : Directive) (value : Int64) :
    (decimalCells d value.toInt).length ≤ 64 ↔ d.atLeast ≤ 64 := by
  have hsign : (fieldSign d value.toInt).length ≤ 1 := fieldSign_length
  have hdigits := intDigits_length value
  rw [decimalCells, length_padLeft, List.length_append]
  omega

/-- The text of the buffer, with spaces in front unless there is the flag `-`. -/
def plainText (d : Directive) (value : ℤ) : Str :=
  if .minus ∈ d.flags then decimalCells d value else padLeft (chr ' ') d.columns (decimalCells d value)

theorem minus_iff (d : Directive) : d.spec.flags &&& 4 ≠ 0 ↔ Flag.minus ∈ d.flags := d.flag_iff .minus

theorem plainText_eq (d : Directive) (value : ℤ) :
    leadingSpaces d.spec.width d.spec.flags (decimalCells d value) ++ decimalCells d value =
      plainText d value := by
  have hmissing : (d.width.value - (decimalCells d value).length).toNat =
      d.columns - (decimalCells d value).length := by
    rw [Directive.columns]
    omega
  simp only [leadingSpaces, plainText, minus_iff, d.toInt_width, hmissing, padLeft]
  split_ifs <;> rfl

/-- The last character of what is asked for. -/
theorem decimalField_last {c : UInt8} (h : (decimalField d value).getLast? = some c) :
    c = chr ' ' ∨ isdigit c = true := by
  have hdigits : ∀ sign : Str, ∀ c : UInt8,
      (sign ++ padLeft (chr '0') d.atLeast (fieldDigits value)).getLast? = some c →
        isdigit c = true := by
    intro sign c hlast
    rw [padLeft, ← List.append_assoc, List.getLast?_append_of_ne_nil _ fieldDigits_ne_nil] at hlast
    exact isdigit_of_mem_digits (List.mem_of_getLast? hlast)
  unfold decimalField at h
  dsimp only at h
  split_ifs at h with hminus hzeros
  · by_cases hlt : (fieldSign d value ++
        padLeft (chr '0') d.atLeast (fieldDigits value)).length < d.columns
    · rw [getLast?_padRight hlt] at h
      exact .inl (Option.some.inj h).symm
    · rw [padRight_of_le (Nat.not_lt.mp hlt)] at h
      exact .inr (hdigits _ c h)
  · rw [padLeft, ← List.append_assoc] at h
    exact .inr (hdigits _ c h)
  · rw [padLeft, ← List.append_assoc] at h
    exact .inr (hdigits _ c h)

/-- The field is as wide as the sign and the digits. -/
theorem length_number (d : Directive) (value : ℤ) :
    (fieldSign d value ++ padLeft (chr '0') d.atLeast (fieldDigits value)).length =
      (fieldSign d value).length + max d.atLeast (fieldDigits value).length := by
  rw [List.length_append, length_padLeft]

/-- The least value is printed as a sign without digits. -/
theorem plain_ne_least (d : Directive) : plainText d (-2 ^ 63) ≠ decimalField d (-2 ^ 63) := by
  intro h
  have hcells : decimalCells d (-2 ^ 63) = padLeft (chr '0') d.atLeast [chr '-'] := rfl
  have hne : decimalCells d (-2 ^ 63) ≠ [] := by
    rw [hcells, padLeft]
    exact List.append_ne_nil_of_right_ne_nil _ (List.cons_ne_nil _ _)
  have hcellsLast : (decimalCells d (-2 ^ 63)).getLast? = some (chr '-') := by
    rw [hcells, getLast?_padLeft (List.cons_ne_nil _ _)]
    rfl
  have hlast : (plainText d (-2 ^ 63)).getLast? = some (chr '-') := by
    unfold plainText
    split_ifs
    · exact hcellsLast
    · rw [getLast?_padLeft hne, hcellsLast]
  rw [h] at hlast
  exact absurd (decimalField_last hlast) (by decide)

/-- On the left. -/
theorem plain_minus_iff (hminus : .minus ∈ d.flags) (hvalue : value ≠ -2 ^ 63) :
    plainText d value = decimalField d value ↔
      (fieldSign d value = [] ∨ d.atLeast ≤ (fieldDigits value).length) ∧
        d.columns ≤ (fieldSign d value).length + max d.atLeast (fieldDigits value).length := by
  rw [plainText, if_pos hminus, decimalCells, intDigits_decimal hvalue, decimalField, if_pos hminus,
    ← length_number]
  constructor
  · intro h
    have hwidth : d.columns ≤
        (fieldSign d value ++ padLeft (chr '0') d.atLeast (fieldDigits value)).length := by
      by_contra hlt
      have hlast := congrArg List.getLast? h
      have hne : fieldSign d value ++ fieldDigits value ≠ [] :=
        List.append_ne_nil_of_right_ne_nil _ fieldDigits_ne_nil
      rw [getLast?_padRight (Nat.not_le.mp hlt), getLast?_padLeft hne,
        List.getLast?_append_of_ne_nil _ fieldDigits_ne_nil] at hlast
      exact absurd (isdigit_of_mem_digits (List.mem_of_getLast? hlast)) (by decide)
    rw [padRight_of_le hwidth] at h
    exact ⟨padLeft_append_iff [] [] zero_notMem_fieldSign h, hwidth⟩
  · rintro ⟨hsign, hwidth⟩
    rw [padRight_of_le hwidth, padLeft_append hsign]

/-- With zeros. -/
theorem plain_zeros_iff (hzeros : d.fillsZeros) (hvalue : value ≠ -2 ^ 63) :
    plainText d value = decimalField d value ↔
      d.columns ≤ (fieldSign d value).length + max d.atLeast (fieldDigits value).length := by
  have hnone : d.atLeast = 0 := by
    rw [Directive.atLeast, Directive.limit, Option.isNone_iff_eq_none.mp hzeros.2.2]
    rfl
  have hlen : (fieldSign d value ++ fieldDigits value).length =
      (fieldSign d value).length + (fieldDigits value).length := List.length_append
  rw [plainText, if_neg hzeros.1, decimalCells, intDigits_decimal hvalue, decimalField,
    if_neg hzeros.1, if_pos hzeros, hnone, padLeft_of_le (Nat.zero_le _),
    padLeft_of_le (Nat.zero_le _), Nat.zero_max]
  constructor
  · intro h
    by_contra hlt
    have hmem : chr '0' ∈ fieldSign d value ++
        List.replicate (d.columns - (fieldSign d value).length - (fieldDigits value).length)
          (chr '0') :=
      List.mem_append_right _ (List.mem_replicate.mpr ⟨by omega, rfl⟩)
    rw [padLeft, padLeft, ← List.append_assoc, ← List.append_assoc] at h
    rw [← List.append_cancel_right h] at hmem
    rcases List.mem_append.mp hmem with hspace | hsign
    · exact absurd (List.eq_of_mem_replicate hspace) (by decide)
    · exact zero_notMem_fieldSign hsign
  · intro hwidth
    rw [padLeft_of_le (by omega), padLeft_of_le (by omega)]

/-- With spaces. -/
theorem plain_spaces_iff (hminus : .minus ∉ d.flags) (hzeros : ¬ d.fillsZeros)
    (hvalue : value ≠ -2 ^ 63) : plainText d value = decimalField d value ↔
      fieldSign d value = [] ∨ d.atLeast ≤ (fieldDigits value).length := by
  rw [plainText, if_neg hminus, decimalCells, intDigits_decimal hvalue, decimalField,
    if_neg hminus, if_neg hzeros]
  constructor
  · intro h
    unfold padLeft at h
    exact padLeft_append_iff _ _ zero_notMem_fieldSign h
  · intro hsign
    rw [padLeft_append hsign]

/-- **When what is in the buffer is what is asked for.** -/
theorem plain_eq_iff (d : Directive) (value : ℤ) :
    plainText d value = decimalField d value ↔ value ≠ -2 ^ 63 ∧
      (fieldSign d value = [] ∨ d.atLeast ≤ (fieldDigits value).length) ∧
      (.minus ∈ d.flags ∨ d.fillsZeros →
        d.columns ≤ (fieldSign d value).length + max d.atLeast (fieldDigits value).length) := by
  by_cases hvalue : value = -2 ^ 63
  · subst hvalue
    exact iff_of_false (plain_ne_least d) fun h => h.1 rfl
  · by_cases hminus : .minus ∈ d.flags
    · simp only [plain_minus_iff hminus hvalue, hvalue, hminus, ne_eq, not_false_eq_true, true_and,
        true_or, true_implies]
    · by_cases hzeros : d.fillsZeros
      · have hsign : d.atLeast ≤ (fieldDigits value).length := by
          rw [Directive.atLeast, Directive.limit, Option.isNone_iff_eq_none.mp hzeros.2.2]
          exact Nat.zero_le _
        simp only [plain_zeros_iff hzeros hvalue, hvalue, hzeros, hsign, ne_eq, not_false_eq_true,
          true_and, or_true, true_implies]
      · simp only [plain_spaces_iff hminus hzeros hvalue, hvalue, hminus, hzeros, ne_eq,
          not_false_eq_true, true_and, or_self, false_implies, and_true]

/-! ### The text that is printed -/

/-- There is no zero byte in what is asked for. -/
theorem zero_notMem_decimalField : 0 ∉ decimalField d value := by
  have hchars : (0 : UInt8) ≠ chr '0' ∧ (0 : UInt8) ≠ chr ' ' ∧ isdigit 0 ≠ true := by decide
  have hsign : 0 ∉ fieldSign d value := by
    unfold fieldSign
    split_ifs <;> decide
  have hdigits : 0 ∉ padLeft (chr '0') d.atLeast (fieldDigits value) := fun h =>
    (mem_of_mem_padLeft h).elim hchars.1 fun h => hchars.2.2 (isdigit_of_mem_digits h)
  have hnumber : 0 ∉ fieldSign d value ++ padLeft (chr '0') d.atLeast (fieldDigits value) :=
    fun h => (List.mem_append.mp h).elim hsign hdigits
  unfold decimalField
  dsimp only
  split_ifs
  · exact fun h => (mem_of_mem_padRight h).elim hchars.2.1 hnumber
  · intro h
    rcases List.mem_append.mp h with h | h
    · exact hsign h
    · exact (mem_of_mem_padLeft h).elim hchars.1 hdigits
  · exact fun h => (mem_of_mem_padLeft h).elim hchars.2.1 hnumber

/-- How many characters behind the buffer are printed for the width. -/
def passed (d : Directive) (value : ℤ) : ℕ :=
  passedCells d.spec.width d.spec.flags (decimalCells d value)

/-- **The text of `d`** in the code. -/
theorem formatInt_decimal (hfits : d.atLeast ≤ 64) (value : Int64) (behind : Str) :
    formatInt value 10 d.spec.width d.spec.precision d.spec.flags behind =
      (outputFrom (passed d value.toInt) behind).map (plainText d value.toInt ++ ·) := by
  have hcells := decimalCells_eq d value
  have hlen := (decimalCells_fit d value).mpr hfits
  rw [← hcells] at hlen
  rw [formatInt_eq value (by decide) (by decide) _ _ _ _ hlen, hcells, plainText_eq]
  rfl

/-- Nothing is passed where nothing is to be behind the digits. -/
theorem passed_eq_zero (hvalue : value ≠ -2 ^ 63)
    (hwidth : .minus ∈ d.flags → d.columns ≤
      (fieldSign d value).length + max d.atLeast (fieldDigits value).length)
    (hsign : fieldSign d value = [] ∨ d.atLeast ≤ (fieldDigits value).length) :
    passed d value = 0 := by
  unfold passed passedCells
  split_ifs with hminus
  · rw [minus_iff] at hminus
    have hle := hwidth hminus
    rw [Directive.columns] at hle
    rw [d.toInt_width, decimalCells, intDigits_decimal hvalue, padLeft_append hsign, length_number]
    omega
  · rfl

/-- Memory behind the buffer with `k + 1` bytes before the zero. -/
theorem outputFrom_replicate (hb : b ≠ 0) {n k : ℕ} (hn : n ≤ k + 1) :
    outputFrom n (b :: (List.replicate k b ++ [0])) = some (List.replicate (k + 1) b) := by
  have hmem : 0 ∉ List.replicate (k + 1) b := fun h => hb (List.eq_of_mem_replicate h).symm
  have hlist : b :: (List.replicate k b ++ [0]) = List.replicate (k + 1) b ++ [0] := rfl
  rw [hlist, outputFrom_le hmem (by rwa [List.length_replicate]), untilZero_zero, Option.map_some,
    List.append_nil]

/-- A zero behind the buffer that is passed is printed. -/
theorem zero_mem_outputFrom {n : ℕ} (hn : n ≠ 0) {tail text : Str}
    (h : outputFrom n (0 :: tail) = some text) : 0 ∈ text := by
  obtain ⟨strays, -, rfl⟩ := Option.map_eq_some_iff.mp h
  obtain ⟨n, rfl⟩ := Nat.exists_eq_succ_of_ne_zero hn
  exact List.mem_append_left _ List.mem_cons_self

/-- **The exact condition for `d`**, whatever is in memory after `b`. -/
theorem decimal_iff (d : Directive) (value : Int64) (b : UInt8) :
    (∀ tail, formatInt value 10 d.spec.width d.spec.precision d.spec.flags (b :: tail) =
        some (decimalField d value.toInt)) ↔ DecimalPrinted d value.toInt b := by
  constructor
  · intro h
    have hfits : d.atLeast ≤ 64 := by
      by_contra hlong
      have hcells := decimalCells_eq d value
      have hnone : formatInt value 10 d.spec.width d.spec.precision d.spec.flags [b] = none :=
        formatInt_none (by rwa [hcells, ← not_le, decimalCells_fit])
      rw [h []] at hnone
      cases hnone
    have htext (tail : Str) := (formatInt_decimal hfits value (b :: tail)).symm.trans (h tail)
    generalize passed d value.toInt = n at htext
    have hb : b = 0 := by
      -- more bytes before the zero are more characters
      by_contra hb
      have hlong (k : ℕ) (hk : n ≤ k + 1) : plainText d value.toInt ++ List.replicate (k + 1) b =
          decimalField d value.toInt := by
        have hstrays := htext (List.replicate k b ++ [0])
        rw [outputFrom_replicate hb hk] at hstrays
        exact Option.some.inj hstrays
      have hsame := (hlong n (by omega)).trans (hlong (n + 1) (by omega)).symm
      have hlen := congrArg List.length (List.append_cancel_left hsame)
      simp only [List.length_replicate] at hlen
      omega
    subst hb
    have hnone : n = 0 := by
      by_contra hn
      obtain ⟨text, hout, hfield⟩ := Option.map_eq_some_iff.mp (htext [])
      have hmem : 0 ∈ plainText d value.toInt ++ text :=
        List.mem_append_right _ (zero_mem_outputFrom hn hout)
      rw [hfield] at hmem
      exact zero_notMem_decimalField hmem
    subst hnone
    have hplain := htext []
    rw [outputFrom_zero, untilZero_zero, Option.map_some, List.append_nil, Option.some_inj,
      plain_eq_iff] at hplain
    exact ⟨rfl, hplain.1, hfits, hplain.2.1, hplain.2.2⟩
  · rintro ⟨rfl, hvalue, hfits, hsign, hwidth⟩ tail
    have hpassed := passed_eq_zero hvalue (fun h => hwidth (.inl h)) hsign
    rw [formatInt_decimal hfits, hpassed, outputFrom_zero, untilZero_zero, Option.map_some,
      List.append_nil, (plain_eq_iff d value.toInt).mpr ⟨hvalue, hsign, hwidth⟩]

/-! ### Strings -/

theorem bmod_natCast_le (n : ℕ) : (n : ℤ).bmod (2 ^ 32) ≤ n := by
  have hle : ((n % 2 ^ 32 : ℕ) : ℤ) ≤ n := by exact_mod_cast Nat.mod_le n _
  rw [Int.bmod_def]
  split_ifs <;> push_cast at hle ⊢ <;> omega

/-- No more is taken than is to be printed. -/
theorem cutLength_le (h : d.Nonneg) (s : Str) : (cutLength d s).toNat ≤ (cutString d s).length := by
  have hlen := bmod_natCast_le s.length
  unfold cutLength cutString Directive.atLeast
  dsimp only
  cases hprecision : d.precision with
  | none =>
    have hlimit : d.limit = -1 := by
      rw [Directive.limit, hprecision]
      rfl
    rw [Option.isNone_none, if_pos rfl, if_neg (by omega)]
    omega
  | some amount =>
    have hlimit : 0 ≤ d.limit := by
      rw [Directive.limit, hprecision]
      exact h.2 amount hprecision
    rw [Option.isNone_some, if_neg Bool.false_ne_true, List.length_take]
    split_ifs with hcut
    · omega
    · omega

/-- What is taken of what is to be printed. -/
theorem take_cutString (h : d.Nonneg) (s : Str) :
    s.take (cutLength d s).toNat = (cutString d s).take (cutLength d s).toNat := by
  have hle := cutLength_le h s
  unfold cutString at hle ⊢
  split_ifs at hle ⊢
  · rfl
  · rw [List.length_take] at hle
    rw [List.take_take, Nat.min_eq_left (by omega)]

/-- What `format_string` prints. -/
theorem formatString_cut (d : Directive) (s : Str) :
    formatString s d.spec.width d.spec.precision =
      List.replicate ((d.width.value - cutLength d s).bmod (2 ^ 32)).toNat (chr ' ') ++
        s.take (cutLength d s).toNat := by
  have hlen : (if 0 ≤ d.spec.precision ∧ d.spec.precision < Int32.ofNat s.length then
      d.spec.precision else Int32.ofNat s.length).toInt = cutLength d s := by
    have hs : (Int32.ofNat s.length).toInt = (s.length : ℤ).bmod (2 ^ 32) := Int32.toInt_ofNat'
    have hzero : (0 : Int32).toInt = 0 := rfl
    simp only [Int32.le_iff_toInt_le, Int32.lt_iff_toInt_lt, apply_ite Int32.toInt,
      d.toInt_precision, hs, hzero, cutLength]
  unfold formatString
  dsimp only
  rw [Int32.toInt_sub, hlen, d.toInt_width]

/-- **The text of `s`** in the code. -/
theorem formatString_eq (h : d.Nonneg) (s : Str) :
    formatString s d.spec.width d.spec.precision =
      List.replicate ((d.width.value - cutLength d s).bmod (2 ^ 32)).toNat (chr ' ') ++
        (cutString d s).take (cutLength d s).toNat := by
  rw [formatString_cut, take_cutString h]

/-- No more is taken than there is. -/
theorem cutLength_toNat_le (d : Directive) (s : Str) : (cutLength d s).toNat ≤ s.length := by
  have hlen := bmod_natCast_le s.length
  unfold cutLength
  dsimp only
  split_ifs <;> omega

theorem cutLength_lt (d : Directive) (s : Str) : cutLength d s < 2 ^ 31 := by
  have hlen : (s.length : ℤ).bmod (2 ^ 32) < 2 ^ 31 := Int.bmod_lt (by decide)
  unfold cutLength
  dsimp only
  split_ifs <;> omega

/-- The spaces in front of a string. -/
theorem spaces_eq (h : d.Nonneg) {s : Str} (hs : cutLength d s = (cutString d s).length) :
    ((d.width.value - cutLength d s).bmod (2 ^ 32)).toNat = d.columns - (cutString d s).length := by
  have hwidth := d.width_lt
  have hpos := h.1
  have hlt := cutLength_lt d s
  rw [Directive.columns, Int.bmod_eq_of_le (by omega) (by omega)]
  omega

/-- Where the length is not that of what is to be printed, but what is taken is, that is empty. -/
theorem cutString_nil {s : Str} (htake : (cutLength d s).toNat = (cutString d s).length)
    (hne : cutLength d s ≠ (cutString d s).length) : cutString d s = [] :=
  List.eq_nil_of_length_eq_zero (by omega)

/-- **The exact condition for `s`.** -/
theorem string_iff (h : d.Nonneg) (s : Str) :
    formatString s d.spec.width d.spec.precision = stringField d s ↔ StringPrinted d s := by
  have hle := cutLength_le h s
  have hspaces := spaces_eq h (s := s)
  have hempty := cutString_nil (d := d) (s := s)
  rw [formatString_eq h, stringField, StringPrinted]
  generalize ((d.width.value - cutLength d s).bmod (2 ^ 32)).toNat = m at hspaces ⊢
  split_ifs with hminus
  · rw [take_eq_padRight_iff hle]
    refine ⟨?_, Or.imp_left fun ⟨hs, hwidth⟩ => ?_⟩
    · rintro (⟨htake, rfl, hwidth⟩ | hall)
      · by_cases hs : cutLength d s = (cutString d s).length
        · exact .inl ⟨hs, fun _ => hwidth⟩
        · have hnil := hempty htake hs
          rw [hnil, List.length_nil] at htake hwidth ⊢
          exact .inr ⟨nofun, by omega⟩
      · exact .inr hall
    · have hwidth := hwidth hminus
      exact ⟨by omega, by rw [hspaces hs]; omega, hwidth⟩
  · rw [take_eq_padLeft_iff hle]
    refine ⟨?_, Or.imp_left fun ⟨hs, _⟩ => ⟨by omega, hspaces hs⟩⟩
    rintro (⟨htake, hm⟩ | hall)
    · by_cases hs : cutLength d s = (cutString d s).length
      · exact .inl ⟨hs, fun h => absurd h hminus⟩
      · have hnil := hempty htake hs
        rw [hnil, List.length_nil] at htake hm ⊢
        exact .inr ⟨nofun, by omega⟩
    · exact .inr hall

/-! ### A turn of the loop -/

/-- The turn for `d`. -/
theorem nextPiece_decimal (mem : PrintfMemory) (d : Directive) (slot : UInt64) (rest : Str)
    (args : List UInt64) (count : Int32) :
    nextPiece mem (chr '%' :: (d.chars ++ chr 'd' :: rest)) (d.args ++ slot :: args) count =
      (formatInt (signedArg d.length slot) 10 d.spec.width d.spec.precision d.spec.flags
        (mem.behind rest.length)).map fun text => (⟨text, 1, none⟩, rest, args) := by
  have hspecifier : chr 'd' ∈ specifiers := by decide
  have hconvert := convert_integer mem rest.length d.spec .d slot args count
  rw [nextPiece_directive mem d hspecifier]
  exact (congrArg (Option.map _) hconvert).trans (Option.map_map ..)

/-- The turn for `s`. -/
theorem nextPiece_string (mem : PrintfMemory) (d : Directive) (slot : UInt64) (rest : Str)
    (args : List UInt64) (count : Int32) :
    nextPiece mem (chr '%' :: (d.chars ++ chr 's' :: rest)) (d.args ++ slot :: args) count =
      some (⟨formatString (stringAt mem slot) d.spec.width d.spec.precision,
        Int32.ofNat (stringAt mem slot).length, none⟩, rest, args) := by
  have hspecifier : chr 's' ∈ specifiers := by decide
  rw [nextPiece_directive mem d hspecifier, convert_string]
  rfl

/-- `d` prints what is asked for. -/
theorem decimal_printed_iff (d : Directive) (slot : UInt64) (b : UInt8) :
    (∀ (mem : PrintfMemory) (rest tail : Str), mem.behind rest.length = b :: tail →
        PrintsField mem d (chr 'd') slot rest (decimalField d (signedArg d.length slot).toInt)) ↔
      DecimalPrinted d (signedArg d.length slot).toInt b := by
  rw [← decimal_iff]
  constructor
  · intro hprint tail
    obtain ⟨added, hturn⟩ := hprint ⟨fun _ => [], fun _ => b :: tail⟩ [] tail rfl [] 0
    rw [nextPiece_decimal] at hturn
    obtain ⟨text, htext, hpiece⟩ := Option.map_eq_some_iff.mp hturn
    exact htext.trans (congrArg (fun r => some r.1.text) hpiece)
  · intro hformat mem rest tail hbehind args count
    exact ⟨1, by rw [nextPiece_decimal, hbehind, hformat]; rfl⟩

/-- `s` prints what is asked for. -/
theorem string_printed_iff (h : d.Nonneg) (slot : UInt64) (mem : PrintfMemory) (rest : Str) :
    PrintsField mem d (chr 's') slot rest (stringField d (stringAt mem slot)) ↔
      StringPrinted d (stringAt mem slot) := by
  rw [← string_iff h]
  constructor
  · intro hprint
    obtain ⟨added, hturn⟩ := hprint [] 0
    rw [nextPiece_string] at hturn
    exact congrArg (fun r => r.1.text) (Option.some.inj hturn)
  · intro hformat args count
    exact ⟨_, by rw [nextPiece_string, hformat]⟩

/-- **The layout of fields**: `d` prints what is asked for exactly if the byte behind the local buffer
of `format_int` is zero, the value is not the least one, the precision is not over 64 and leaves no
zeros behind a sign, and the width adds nothing where there is the flag `-` or zeros are asked for.
Then `s` prints what is asked for exactly if its length is that of the string as it is cut and the
width adds nothing where there is the flag `-`, or there are only spaces, as many as asked for. -/
theorem field_layout_iff (h : d.Nonneg) (slot : UInt64) :
    (∀ b, (∀ (mem : PrintfMemory) (rest tail : Str), mem.behind rest.length = b :: tail →
          PrintsField mem d (chr 'd') slot rest
            (decimalField d (signedArg d.length slot).toInt)) ↔
        DecimalPrinted d (signedArg d.length slot).toInt b) ∧
      ∀ (mem : PrintfMemory) (rest : Str),
        PrintsField mem d (chr 's') slot rest (stringField d (stringAt mem slot)) ↔
          StringPrinted d (stringAt mem slot) :=
  ⟨decimal_printed_iff d slot, string_printed_iff h slot⟩

/-- `-5`. -/
def leftFive : Directive where
  flags := [.minus]
  width := .number [5]
  precision := none
  length := .none
  width_head := by decide
  width_lt := by decide
  precision_lt := no_precision_lt

theorem leftFive_nonneg : leftFive.Nonneg := ⟨by decide, nofun⟩

/-- `%-5d` and `%-5s`. -/
theorem field_layout_leftFive :
    (∀ b, (∀ (mem : PrintfMemory) (rest tail : Str), mem.behind rest.length = b :: tail →
          PrintsField mem leftFive (chr 'd') 7 rest
            (decimalField leftFive (signedArg .none 7).toInt)) ↔
        DecimalPrinted leftFive (signedArg .none 7).toInt b) ∧
      ∀ (mem : PrintfMemory) (rest : Str),
        PrintsField mem leftFive (chr 's') 7 rest (stringField leftFive (stringAt mem 7)) ↔
          StringPrinted leftFive (stringAt mem 7) :=
  field_layout_iff leftFive_nonneg 7

/-- **`%-5d` is not padded**, also where there is a zero behind the buffer. -/
theorem minus_not_padded : ¬ ∀ (d : Directive), d.Nonneg → ∀ slot : UInt64,
    (∀ (mem : PrintfMemory) (rest tail : Str), mem.behind rest.length = 0 :: tail →
        PrintsField mem d (chr 'd') slot rest (decimalField d (signedArg d.length slot).toInt)) ∧
      ∀ (mem : PrintfMemory) (rest : Str),
        PrintsField mem d (chr 's') slot rest (stringField d (stringAt mem slot)) := by
  intro hall
  have hprinted := (decimal_printed_iff leftFive 7 0).mp (hall leftFive leftFive_nonneg 7).1
  have hwidth := hprinted.width (.inl (by decide))
  have hvalue : (signedArg leftFive.length 7).toInt = 7 := by decide
  have hdigits : fieldDigits 7 = [chr '7'] := by
    simp [fieldDigits, numeral, numeralDigits]
    decide
  rw [hvalue, hdigits] at hwidth
  exact absurd hwidth (by decide)

end

end PrismaticOS.Libc
