import PrismaticOS.Libc.PrintfReturn
import PrismaticOS.Libc.StrtolResults

/-!
# Lists of numbers

What `sprintf` of `libc/src/stdio/printf.c` prints of some integers, each with a space behind it, is
read by `strtol` of `libc/src/stdlib/atoi.c`, each number from where the one before ends.

## The model

A number is an argument and a directive for it, with any flags but `-`, any width and no precision.
The zero that ends the local buffer of `format_int` is taken to be there (`hbehind`).

## What is proved

* `pieces_numbers` — what `sprintf` prints of the numbers.
* `strtol_number` — what `strtol` reads of one of them, with spaces in front.
* `numbers_read_back` — exactly the numbers that fit are read back.
-/

namespace PrismaticOS.Libc

open PrismaticOS.Library

/-- An integer, and how it is printed. -/
structure NumberItem where
  /-- The flags, the width and the length modifier. -/
  d : Directive
  /-- The conversion. -/
  conv : IntConversion
  /-- The argument. -/
  slot : UInt64
  /-- It is not printed on the left. -/
  right : Flag.minus ∉ d.flags
  /-- It has no precision. -/
  precision_none : d.precision = none

namespace NumberItem

/-- The conversion and the space behind it. -/
def items (n : NumberItem) : List FormatItem :=
  [.directive n.d (.integer n.conv n.slot), .literal (chr ' ') (by decide)]

/-- The number. -/
def value (n : NumberItem) : ℤ := argument n.conv n.d.length n.slot

/-- The number that `vprintf_internal` reads. -/
def taken (n : NumberItem) : Int64 := readValue n.conv n.d.length n.slot

/-- It is read as it is, and can be printed. -/
def Fits (n : NumberItem) : Prop := PrismaticOS.Libc.Fits n.conv n.d.length n.value

/-- The digits that are printed. -/
def digits (n : NumberItem) : Str := intDigits n.conv.base n.taken.toInt

/-- The sign and the digits. -/
def cells (n : NumberItem) : Str := intSign n.conv.base n.taken.toInt n.d.spec.flags ++ n.digits

/-- What is printed of it. -/
def text (n : NumberItem) : Str := leadingSpaces n.d.spec.width n.d.spec.flags n.cells ++ n.cells

end NumberItem

/-- What is printed of some numbers. -/
def numbersText (ns : List NumberItem) : Str := ns.flatMap fun n => n.text ++ [chr ' ']

/-- Numbers are read from a text with `strtol`, each from the end pointer of the one before. -/
def readNumbers (m : Mem) : List ℤ → ℕ → Option (List ℤ)
  | [], _ => some []
  | base :: bases, nptr =>
    (strtol m nptr base).bind fun r => (readNumbers m bases r.endptr).map (r.value :: ·)

section
variable {mem : PrintfMemory} {m : Mem} {p : ℕ} {gap more after : Str} {n : NumberItem}
  {ns : List NumberItem} {base : ℕ} {value : ℤ} {flags : UInt32}

/-! ### What is printed -/

theorem intSign_length (base : ℕ) (value : ℤ) (flags : UInt32) :
    (intSign base value flags).length ≤ 1 := by
  unfold intSign
  split_ifs <;> simp

theorem NumberItem.taken_range (n : NumberItem) : n.taken.toInt.natAbs < 8 ^ 22 := by
  have hlow := n.taken.le_toInt
  have hhigh := n.taken.toInt_lt
  omega

theorem NumberItem.digits_length (n : NumberItem) : n.digits.length ≤ 22 := by
  rw [NumberItem.digits, intDigits]
  split_ifs
  · exact numeral_length _ n.conv.one_lt_base (by decide)
      (n.taken_range.trans_le (Nat.pow_le_pow_left n.conv.le_base 22))
  · exact Nat.zero_le _

theorem NumberItem.intCells_eq (n : NumberItem) :
    intCells n.taken n.conv.base n.d.spec.precision n.d.spec.flags = n.cells := by
  have hprecision : n.d.spec.precision.toInt.toNat = 0 := by
    rw [n.d.toInt_precision, Directive.limit, n.precision_none]
    decide
  rw [intCells_parts n.taken n.conv.one_lt_base, hprecision, padLeft_of_le (Nat.zero_le _)]
  rfl

/-- What `format_int` prints of a number. -/
theorem NumberItem.formatInt_eq (n : NumberItem) (tail : Str) :
    formatInt n.taken n.conv.base n.d.spec.width n.d.spec.precision n.d.spec.flags (0 :: tail) =
      some n.text := by
  have hcells := n.intCells_eq
  have hfits : (intCells n.taken n.conv.base n.d.spec.precision n.d.spec.flags).length ≤ 64 := by
    have hsign := intSign_length n.conv.base n.taken.toInt n.d.spec.flags
    have hdigits := n.digits_length
    rw [hcells, NumberItem.cells, List.length_append]
    omega
  have hright : ¬ (n.d.spec.flags &&& 4 ≠ 0) := mt (n.d.flag_iff .minus).mp n.right
  rw [Libc.formatInt_eq n.taken n.conv.one_lt_base n.conv.base_le _ _ _ _ hfits, hcells,
    passedCells, if_neg hright, outputFrom_zero, untilZero_zero, Option.map_some, List.append_nil]
  rfl

/-- How long it is at most. -/
theorem NumberItem.text_length (n : NumberItem) :
    n.text.length ≤ n.d.width.value.toNat + 23 := by
  have hsign := intSign_length n.conv.base n.taken.toInt n.d.spec.flags
  have hdigits := n.digits_length
  have hcells : n.cells.length ≤ 23 := by
    rw [NumberItem.cells, List.length_append]
    omega
  have hspaces : (leadingSpaces n.d.spec.width n.d.spec.flags n.cells).length ≤
      n.d.width.value.toNat := by
    unfold leadingSpaces
    rw [n.d.toInt_width]
    split_ifs
    · exact Nat.zero_le _
    · rw [List.length_replicate]
      omega
  rw [NumberItem.text, List.length_append]
  omega

/-- There is no zero in it. -/
theorem NumberItem.zero_notMem (n : NumberItem) : 0 ∉ n.text := by
  have hcells : 0 ∉ n.cells := by
    rw [← n.intCells_eq]
    exact zero_notMem_intCells n.taken n.conv.one_lt_base n.conv.base_le _ _
  have hspaces : 0 ∉ leadingSpaces n.d.spec.width n.d.spec.flags n.cells := by
    unfold leadingSpaces
    split_ifs
    · exact List.not_mem_nil
    · exact fun h => absurd (List.eq_of_mem_replicate h) (by decide)
  exact List.mem_append.not.mpr (not_or.mpr ⟨hspaces, hcells⟩)

/-- **What is printed of the numbers.** -/
theorem pieces_numbers (hbehind : ∀ left, ∃ tail, mem.behind left = 0 :: tail) (after : Str)
    (ns : List NumberItem) (count : Int32) :
    ∃ ps, pieces mem (formatOf (ns.flatMap NumberItem.items) after)
        (argsOf (ns.flatMap NumberItem.items)) count = some ps ∧ textOf ps = numbersText ns := by
  induction ns generalizing count with
  | nil => exact ⟨[], pieces_end rfl _ _, rfl⟩
  | cons n ns ih =>
    obtain ⟨rest, hrest⟩ : ∃ rest, formatOf (ns.flatMap NumberItem.items) after = rest := ⟨_, rfl⟩
    obtain ⟨args, hargs⟩ : ∃ args, argsOf (ns.flatMap NumberItem.items) = args := ⟨_, rfl⟩
    rw [hrest, hargs] at ih
    obtain ⟨tail, htail⟩ := hbehind (chr ' ' :: rest).length
    have hturn : nextPiece mem (chr '%' :: (n.d.chars ++ n.conv.specifier :: chr ' ' :: rest))
        (n.d.args ++ n.slot :: args) count = some (⟨n.text, 1, none⟩, chr ' ' :: rest, args) := by
      rw [nextPiece_directive mem n.d n.conv.specifier_mem, convert_integer, htail]
      exact congrArg _ (congrArg _ (n.formatInt_eq tail))
    have hspace : nextPiece mem (chr ' ' :: rest) args (count + 1) =
        some (⟨[chr ' '], 1, none⟩, rest, args) := by
      have hne : chr ' ' ≠ chr '%' := by decide
      simp only [nextPiece, if_neg hne]
    have hformat : formatOf ((n :: ns).flatMap NumberItem.items) after =
        chr '%' :: (n.d.chars ++ n.conv.specifier :: chr ' ' :: rest) := by
      simp [NumberItem.items, formatOf_cons, FormatItem.chars, Conversion.specifier, hrest]
    have hslots : argsOf ((n :: ns).flatMap NumberItem.items) = n.d.args ++ n.slot :: args := by
      simp [NumberItem.items, argsOf_cons, FormatItem.args, Conversion.args, hargs]
    obtain ⟨ps, hps, htext⟩ := ih (count + 1 + 1)
    refine ⟨⟨n.text, 1, none⟩ :: ⟨[chr ' '], 1, none⟩ :: ps, ?_, ?_⟩
    · rw [hformat, hslots, pieces_next (by simp; decide), hturn, Option.bind_some]
      dsimp only
      rw [pieces_next (by simp; decide), hspace, Option.bind_some]
      dsimp only
      rw [hps]
      rfl
    · rw [numbersText, List.flatMap_cons, List.append_assoc, ← numbersText, ← htext]
      rfl

/-! ### What is read -/

/-- The digits of a base. -/
theorem digitWorth_digitChar {d : ℕ} (h : d < 16) : digitWorth (digitChar d) = some d := by
  revert d
  decide

theorem isDigit_of_mem {k : ℕ} (hb : 1 < base) (hle : base ≤ 16) {c : UInt8}
    (h : c ∈ numeral digitChar base k) : IsDigit base c := by
  obtain ⟨d, hd, rfl⟩ := List.mem_map.mp h
  have hlt := lt_of_mem_numeralDigits hb hd
  exact ⟨d, digitWorth_digitChar (hlt.trans_le hle), hlt⟩

/-- The number of a numeral. -/
theorem ofDigits_numeral (hb : 1 < base) (hle : base ≤ 16) (k : ℕ) :
    Nat.ofDigits base ((numeral digitChar base k).filterMap digitWorth).reverse = k := by
  have hworth : (numeral digitChar base k).filterMap digitWorth = numeralDigits base k := by
    rw [numeral, List.filterMap_map]
    refine (List.filterMap_congr fun d hd => ?_).trans List.filterMap_some
    exact digitWorth_digitChar ((lt_of_mem_numeralDigits hb hd).trans_le hle)
  rw [hworth, ofDigits_numeralDigits]

theorem isspace_of_mem_space : ∀ c ∈ [chr ' '], isspace c = true := by
  intro c hc
  rw [List.mem_singleton.mp hc]
  decide

/-- The sign is one, or a space. -/
theorem intSign_cases (base : ℕ) (value : ℤ) (flags : UInt32) :
    ∃ space sign, intSign base value flags = space ++ sign ∧ (∀ c ∈ space, isspace c = true) ∧
      sign ∈ signs ∧ (sign = [chr '-'] ↔ value < 0 ∧ base = 10) := by
  unfold intSign
  split_ifs with hminus hplus hspace
  · exact ⟨[], [chr '-'], rfl, by simp, by decide, by simp [hminus]⟩
  · exact ⟨[], [chr '+'], rfl, by simp, by decide, by simp only [hminus]; decide⟩
  · exact ⟨[chr ' '], [], rfl, isspace_of_mem_space, by decide, by simp [hminus]⟩
  · exact ⟨[], [], rfl, by simp, by decide, by simp [hminus]⟩

/-- The parts of what is printed. -/
theorem NumberItem.text_parts (n : NumberItem) :
    ∃ spaces sign, n.text = spaces ++ (sign ++ n.digits) ∧ (∀ c ∈ spaces, isspace c = true) ∧
      sign ∈ signs ∧ (sign = [chr '-'] ↔ n.taken.toInt < 0 ∧ n.conv.base = 10) := by
  obtain ⟨space, sign, hsign, hspace, hmem, hminus⟩ :=
    intSign_cases n.conv.base n.taken.toInt n.d.spec.flags
  refine ⟨leadingSpaces n.d.spec.width n.d.spec.flags n.cells ++ space, sign, ?_, ?_, hmem, hminus⟩
  · rw [NumberItem.text, NumberItem.cells, hsign, List.append_assoc, List.append_assoc]
  · intro c hc
    rcases List.mem_append.mp hc with hc | hc
    · unfold leadingSpaces at hc
      split_ifs at hc
      · cases hc
      · rw [List.eq_of_mem_replicate hc]
        rfl
    · exact hspace c hc

theorem natBase_range (conv : IntConversion) :
    (conv.base : ℤ) = 0 ∨ 2 ≤ (conv.base : ℤ) ∧ (conv.base : ℤ) ≤ 36 := by
  have hle := conv.base_le
  have hlt := conv.one_lt_base
  omega

theorem radixOf_base (conv : IntConversion) (text : Str) :
    radixOf [] (conv.base : ℤ) text = conv.base := by
  have hne : ¬ (conv.base : ℤ) = 0 := by
    have := conv.one_lt_base
    omega
  rw [radixOf, if_neg (not_not.mpr rfl), if_neg hne, Int.toNat_natCast]

/-- A number that is printed is scanned as it is, unless there is neither a sign nor a digit. -/
theorem scanned_number (conv : IntConversion) {spaces sign digits : Str} (more : Str)
    (hspaces : ∀ c ∈ spaces, isspace c = true) (hsign : sign ∈ signs)
    (hdigits : ∀ c ∈ digits, IsDigit conv.base c) (hsome : sign ≠ [] ∨ digits ≠ []) :
    Scanned conv.base ⟨spaces, sign, [], digits⟩ (chr ' ' :: more) := by
  have hradix : Subject.radix ⟨spaces, sign, [], digits⟩ conv.base = conv.base := radixOf_base conv _
  -- the first character behind the sign
  have hhead : ∀ c ∈ (digits ++ chr ' ' :: more).head?, IsDigit conv.base c ∨ c = chr ' ' ∧ digits = [] := by
    intro c hc
    cases digits with
    | nil => exact .inr ⟨(Option.some.inj hc).symm, rfl⟩
    | cons d digits => exact .inl (Option.some.inj hc ▸ hdigits d List.mem_cons_self)
  refine ⟨hspaces, ?_, hsign, ?_, .inl rfl, ?_, by rwa [hradix], ?_⟩
  · intro c hc
    have hcases := hsign
    simp only [signs, List.mem_cons, List.not_mem_nil, or_false] at hcases
    rcases hcases with hnil | hplus | hminus
    · rw [hnil] at hc
      rcases hhead c hc with hdigit | ⟨-, hnone⟩
      · exact isspace_of_isDigit hdigit
      · exact absurd hnone (hsome.resolve_left (not_not.mpr hnil))
    · rw [hplus] at hc
      rw [← Option.some.inj hc]
      rfl
    · rw [hminus] at hc
      rw [← Option.some.inj hc]
      rfl
  · intro _ c hc
    rcases hhead c hc with hdigit | ⟨rfl, -⟩
    · exact ⟨fun heq => not_isDigit (.inl heq) hdigit, fun heq => not_isDigit (.inr heq) hdigit⟩
    · decide
  · intro _ _ h hh hstart
    -- the letter of a prefix is neither a digit nor the space
    obtain ⟨c, rfl, hc⟩ := mem_hexPrefixes hh
    obtain ⟨rest, hrest⟩ := hstart
    have hletter : ¬ IsDigit conv.base c := not_isDigit_x hc conv.base_le
    rcases digits with - | ⟨d, - | ⟨e, digits⟩⟩
    · exact absurd (List.cons.inj hrest).1 (by decide)
    · have hspace : c = chr ' ' := (List.cons.inj (List.cons.inj hrest).2).1
      rcases hc with rfl | rfl <;> exact absurd hspace (by decide)
    · obtain rfl : c = e := (List.cons.inj (List.cons.inj hrest).2).1
      exact hletter (hdigits c (by simp))
  · intro c hc
    rw [← Option.some.inj hc]
    rintro ⟨d, hd, -⟩
    cases hd

/-- What `strtol` reads is in its range, whatever the text is. -/
theorem strtol_range (h : IsString m p more) (hend : p + more.length < 2 ^ 64)
    (conv : IntConversion) :
    ∃ r, strtol m p conv.base = some r ∧ longMin ≤ r.value ∧ r.value ≤ longMax := by
  obtain ⟨x, rest, rfl, hx⟩ := exists_scanned (natBase_range conv) more
  obtain ⟨a, hreads, hconvert⟩ := convert_scanned signed_limit h hend (natBase_range conv) hx
  refine ⟨_, hconvert, ?_⟩
  rw [signed_returned hreads]
  exact ⟨le_max_left _ _, max_le (by decide) (min_le_left _ _)⟩

/-- What it reads of a number that is scanned as it is. -/
theorem strtol_scanned (conv : IntConversion) {spaces sign digits : Str}
    (hspaces : ∀ c ∈ spaces, isspace c = true) (hsign : sign ∈ signs)
    (hdigits : ∀ c ∈ digits, IsDigit conv.base c) (hsome : sign ≠ [] ∨ digits ≠ [])
    (h : IsString m p (spaces ++ (sign ++ digits) ++ chr ' ' :: more))
    (hend : p + (spaces ++ (sign ++ digits) ++ chr ' ' :: more).length < 2 ^ 64) :
    ∃ r, strtol m p conv.base = some r ∧
      r.value = clampLong (if sign = [chr '-']
        then -(Nat.ofDigits conv.base (digits.filterMap digitWorth).reverse : ℕ)
        else (Nat.ofDigits conv.base (digits.filterMap digitWorth).reverse : ℕ)) ∧
      (digits ≠ [] → r.endptr = p + (spaces ++ (sign ++ digits)).length) := by
  have hx := scanned_number conv more hspaces hsign hdigits hsome
  have hradix : Subject.radix ⟨spaces, sign, [], digits⟩ conv.base = conv.base := radixOf_base conv _
  obtain ⟨a, hreads, hconvert⟩ := convert_scanned signed_limit h hend (natBase_range conv) hx
  refine ⟨_, hconvert, ?_, fun hne => if_neg hne⟩
  rw [signed_returned hreads, hradix]
  simp only [decide_eq_true_eq]

/-! ### Which numbers are read back -/

/-- Without digits the number is the least one, or larger than any that `strtol` reads. -/
theorem NumberItem.value_of_digits_nil (h : n.digits = []) :
    longMax < n.value ∨ n.value = longMin ∧ n.taken.toInt < 0 ∧ n.conv.base = 10 := by
  have hnone : ¬ (0 ≤ n.taken.toInt ∨ n.conv.base = 10 ∧ n.taken.toInt ≠ -2 ^ 63) := fun hsome =>
    numeral_ne_nil _ _ _ ((if_pos hsome).symm.trans h)
  obtain ⟨hneg, hmin⟩ := not_or.mp hnone
  have hbits := bitsRead_eq n.d.length
  by_cases hsigned : n.conv.signed = true
  · have hbase : n.conv.base = 10 := by
      cases hconv : n.conv <;> first | rfl | (rw [hconv] at hsigned; cases hsigned)
    have htaken : n.taken.toInt = (n.slot.toNat : ℤ).bmod (2 ^ n.d.length.bitsRead) := by
      rw [NumberItem.taken, readValue, if_pos hsigned, toInt_signedArg]
    have hleast : n.taken.toInt = -2 ^ 63 := by
      by_contra hne
      exact hmin ⟨hbase, hne⟩
    refine .inr ⟨?_, by omega, hbase⟩
    rcases hbits with ⟨-, -, h32⟩ | ⟨-, hsame, -⟩
    · have hlow : -2 ^ 31 ≤ (n.slot.toNat : ℤ).bmod (2 ^ 32) := Int.le_bmod (by decide)
      rw [h32] at htaken
      omega
    · rw [NumberItem.value, argument, if_pos hsigned, ← hsame, ← htaken, hleast]
      rfl
  · have htaken : n.taken.toInt = ((n.slot.toNat % 2 ^ n.d.length.bitsRead : ℕ) : ℤ).bmod (2 ^ 64) := by
      rw [NumberItem.taken, readValue, if_neg hsigned, toInt_toInt64, toNat_unsignedArg]
    have hslot : n.slot.toNat < 2 ^ 64 := n.slot.toNat_lt
    have hlarge : 2 ^ 63 ≤ n.slot.toNat % 2 ^ n.d.length.bitsRead := by
      have hlt := (Nat.mod_le n.slot.toNat (2 ^ n.d.length.bitsRead)).trans_lt hslot
      by_contra hsmall
      have hkept := (bmod_natCast_eq_iff hlt).mpr ⟨rfl, Nat.not_le.mp hsmall⟩
      omega
    refine .inl ?_
    rcases hbits with ⟨-, -, h32⟩ | ⟨-, hsame, -⟩
    · rw [h32] at hlarge
      omega
    · have hvalue : n.value = (n.slot.toNat % 2 ^ n.d.length.bits : ℕ) := by
        rw [NumberItem.value, argument, if_neg hsigned]
        norm_cast
      rw [hsame] at hlarge
      rw [hvalue, longMax]
      omega

/-- Numbers that fit have digits. -/
theorem NumberItem.Fits.digits_ne_nil (hfits : n.Fits) : n.digits ≠ [] := by
  intro h
  have hlow := hfits.1.1
  have hhigh := hfits.1.2
  rcases NumberItem.value_of_digits_nil h with hlarge | ⟨hmin, -⟩
  · unfold longMax at hlarge
    omega
  · unfold longMin at hmin
    omega

/-- With digits, the number that is printed is the one that is taken. -/
theorem NumberItem.fits_iff (h : n.digits ≠ []) : n.taken.toInt = n.value ↔ n.Fits := by
  refine ⟨fun heq => (readValue_eq_iff _ _ _).mp ⟨heq, fun hmin => h ?_⟩,
    fun hfits => ((readValue_eq_iff _ _ _).mpr hfits).1⟩
  -- the least number has none
  have hleast : n.taken.toInt = -2 ^ 63 := heq.trans hmin
  rw [NumberItem.digits, intDigits, if_neg]
  omega

/-- The digits are those of the number that is taken. -/
theorem NumberItem.digits_eq (h : n.digits ≠ []) :
    n.digits = numeral digitChar n.conv.base n.taken.toInt.natAbs ∧
      (n.taken.toInt < 0 → n.conv.base = 10) := by
  unfold NumberItem.digits intDigits at h ⊢
  split_ifs at h ⊢ with hsome
  · exact ⟨rfl, fun hneg => (hsome.resolve_left hneg.not_ge).1⟩
  · exact absurd rfl h

/-- **What `strtol` reads of a number**, with spaces in front. -/
theorem strtol_number (n : NumberItem) (hgap : ∀ c ∈ gap, isspace c = true)
    (h : IsString m p (gap ++ n.text ++ chr ' ' :: more))
    (hend : p + (gap ++ n.text ++ chr ' ' :: more).length < 2 ^ 64) :
    ∃ r, strtol m p n.conv.base = some r ∧ (r.value = n.value ↔ n.Fits) ∧
      (n.Fits → r.endptr = p + (gap ++ n.text).length) := by
  obtain ⟨spaces, sign, htext, hspaces, hsign, hminus⟩ := n.text_parts
  have hfront : ∀ c ∈ gap ++ spaces, isspace c = true := fun c hc =>
    (List.mem_append.mp hc).elim (hgap c) (hspaces c)
  have hparts : gap ++ n.text = gap ++ spaces ++ (sign ++ n.digits) := by
    rw [htext, List.append_assoc]
  rw [hparts] at h hend ⊢
  by_cases hdigits : n.digits = []
  · have hnot : ¬ n.Fits := fun hfits => hfits.digits_ne_nil hdigits
    rcases NumberItem.value_of_digits_nil hdigits with hlarge | ⟨hmin, hneg, hbase⟩
    · obtain ⟨r, hr, -, hle⟩ := strtol_range h hend n.conv
      exact ⟨r, hr, iff_of_false (by omega) hnot, fun hfits => absurd hfits hnot⟩
    · -- there is a sign only
      have hsome : sign = [chr '-'] := hminus.mpr ⟨hneg, hbase⟩
      rw [hdigits] at h hend
      obtain ⟨r, hr, hvalue, -⟩ := strtol_scanned n.conv hfront hsign (by simp)
        (.inl (by rw [hsome]; exact List.cons_ne_nil _ _)) h hend
      refine ⟨r, hr, iff_of_false ?_ hnot, fun hfits => absurd hfits hnot⟩
      rw [hvalue, hmin, if_pos hsome, List.filterMap_nil, List.reverse_nil, Nat.ofDigits_nil]
      decide
  · obtain ⟨hnumeral, hten⟩ := NumberItem.digits_eq hdigits
    obtain ⟨r, hr, hvalue, hendptr⟩ := strtol_scanned n.conv hfront hsign
      (fun c hc => isDigit_of_mem n.conv.one_lt_base n.conv.base_le (hnumeral ▸ hc)) (.inr hdigits)
      h hend
    have hlow := n.taken.le_toInt
    have hhigh := n.taken.toInt_lt
    have htaken : r.value = n.taken.toInt := by
      rw [hvalue, hnumeral, ofDigits_numeral n.conv.one_lt_base n.conv.base_le]
      unfold clampLong longMin longMax
      split_ifs with hsome
      · have := hminus.mp hsome
        omega
      · have : ¬ n.taken.toInt < 0 := fun hneg => hsome (hminus.mpr ⟨hneg, hten hneg⟩)
        omega
    refine ⟨r, hr, ?_, fun _ => hendptr hdigits⟩
    rw [htaken]
    exact NumberItem.fits_iff hdigits

/-- **What is read of all the numbers.** -/
theorem readNumbers_iff (hgap : ∀ c ∈ gap, isspace c = true)
    (h : IsString m p (gap ++ numbersText ns)) (hend : p + (gap ++ numbersText ns).length < 2 ^ 64) :
    readNumbers m (ns.map fun n => (n.conv.base : ℤ)) p = some (ns.map NumberItem.value) ↔
      ∀ n ∈ ns, n.Fits := by
  induction ns generalizing p gap with
  | nil => exact iff_of_true rfl (by simp)
  | cons n ns ih =>
    have hcons : gap ++ numbersText (n :: ns) = gap ++ n.text ++ chr ' ' :: numbersText ns := by
      simp [numbersText]
    rw [hcons] at h hend
    obtain ⟨r, hr, hvalue, hendptr⟩ := strtol_number n hgap h hend
    rw [List.map_cons, List.map_cons, readNumbers, hr, Option.bind_some, List.forall_mem_cons]
    by_cases hfits : n.Fits
    · have hrest := ih (p := r.endptr) isspace_of_mem_space
        (by rw [hendptr hfits]; exact h.drop)
        (by
          rw [List.length_append, ← Nat.add_assoc] at hend
          rwa [hendptr hfits])
      rw [hvalue.mpr hfits, ← hrest]
      simp [hfits]
    · refine iff_of_false (fun hread => hfits (hvalue.mp ?_)) fun hall => hfits hall.1
      obtain ⟨rest, -, heq⟩ := Option.map_eq_some_iff.mp hread
      exact (List.cons.inj heq).1

/-- What `sprintf` leaves in its array. -/
theorem sprintf_text {format : Str} {args : List UInt64} {ps : List Piece}
    (h : pieces mem format args 0 = some ps) (hlength : (textOf ps).length < 2 ^ 64 - 1) :
    ∃ st, sprintf mem format args = some st ∧
      ∀ i, st.buf.buffer i = (textOf ps ++ [0])[i]? := by
  have hbuf := boundedBy_puts (boundedBy_nil sizeMax) (textOf ps)
  have hsize : sizeMax.toNat = 2 ^ 64 - 1 := rfl
  have hpos := hbuf.pos_eq
  have harray := hbuf.buffer_eq
  rw [List.nil_append, hsize, List.take_of_length_le hlength.le] at hpos
  rw [List.nil_append, hsize, List.take_of_length_le hlength.le] at harray
  have hroom : (bufferPuts ⟨fun _ => none, sizeMax, 0, none⟩ (textOf ps)).pos <
      (bufferPuts ⟨fun _ => none, sizeMax, 0, none⟩ (textOf ps)).size := by
    rw [UInt64.lt_iff_toNat_lt, hbuf.size_eq, hpos, hsize]
    exact hlength
  refine ⟨_, by rw [sprintf, vprintfInternal_pieces h, Option.map_some], ?_⟩
  rw [buf_foldl_print, if_pos hroom]
  dsimp only
  rw [hpos]
  exact update_getElem? harray 0

theorem empty_width_lt : (Amount.number []).value < 2 ^ 31 := by decide

/-- `%9d` for −5. -/
def paddedNumber : NumberItem where
  d := ⟨[], .number [Fin.last 9], none, .none, by decide, by decide, no_precision_lt⟩
  conv := .d
  slot := 0xFFFFFFFFFFFFFFFB
  right := by decide
  precision_none := rfl

/-- `%+lx` for 255. -/
def hexNumber : NumberItem where
  d := ⟨[.plus], .number [], none, .l, by decide, empty_width_lt, no_precision_lt⟩
  conv := .x
  slot := 255
  right := by decide
  precision_none := rfl

end

end PrismaticOS.Libc
