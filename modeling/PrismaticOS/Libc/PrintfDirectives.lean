import PrismaticOS.Libc.PrintfSpecs

/-!
# Directives

A conversion specification as it is meant: flags, a width, a precision and a length modifier, as
they are written in a format, and as `vprintf_internal` takes them.

## The model

A width and a precision are digits, or `*` and an argument. They are numbers that an `int` can
have, and a width does not begin with the digit 0, which is a flag.

## What is proved

* `parseSpec_directive` — what is taken for a directive is what is written.
* `nextPiece_directive` — a turn of the loop for a directive and a specifier.
* `Directive.flag_iff`, `Directive.toInt_width`, `Directive.toInt_precision` — what is kept of it.
-/

namespace PrismaticOS.Libc

/-! ### What is written -/

/-- A flag. -/
inductive Flag where
  /-- A sign for every number. -/
  | plus
  /-- A space for the sign of a number that is not negative. -/
  | space
  /-- On the left. -/
  | minus
  /-- Zeros. -/
  | zero
  deriving DecidableEq

/-- How it is written. -/
def Flag.char : Flag → UInt8
  | .plus => chr '+'
  | .space => chr ' '
  | .minus => chr '-'
  | .zero => chr '0'

/-- How it is kept. -/
def Flag.bit : Flag → UInt32
  | .plus => 1
  | .space => 2
  | .minus => 4
  | .zero => 8

/-- A width or a precision. -/
inductive Amount where
  /-- It is in the format. -/
  | number (digits : List (Fin 10))
  /-- It is an argument. -/
  | star (slot : UInt64)

/-- How it is written. -/
def Amount.chars : Amount → Str
  | .number digits => digits.map fun d => digitChar d.val
  | .star _ => [chr '*']

/-- What it takes of the arguments. -/
def Amount.args : Amount → List UInt64
  | .number _ => []
  | .star slot => [slot]

/-- The number. -/
def Amount.value : Amount → ℤ
  | .number digits => (digits.foldl (fun n d => n * 10 + d.val) 0 : ℕ)
  | .star slot => slot.toUInt32.toInt32.toInt

/-- What is between a `%` and the specifier. -/
structure Directive where
  /-- The flags, in the order in which they are written. -/
  flags : List Flag
  /-- The width, which can be empty. -/
  width : Amount
  /-- The precision, if there is one. -/
  precision : Option Amount
  /-- The length modifier. -/
  length : LengthModifier
  /-- A zero would be a flag. -/
  width_head : width.chars.head? ≠ some (chr '0')
  /-- The width is an `int`. -/
  width_lt : width.value < 2 ^ 31
  /-- The precision is an `int`. -/
  precision_lt : ∀ amount ∈ precision, amount.value < 2 ^ 31

/-- No precision is not too large. -/
theorem no_precision_lt : ∀ amount ∈ (none : Option Amount), amount.value < 2 ^ 31 := nofun

/-- How the precision is written. -/
def precisionChars : Option Amount → Str
  | none => []
  | some amount => chr '.' :: amount.chars

/-- What the precision takes of the arguments. -/
def precisionArgs : Option Amount → List UInt64
  | none => []
  | some amount => amount.args

namespace Directive

/-- How it is written. -/
def chars (d : Directive) : Str :=
  d.flags.map Flag.char ++ (d.width.chars ++ (precisionChars d.precision ++ d.length.chars))

/-- What it takes of the arguments. -/
def args (d : Directive) : List UInt64 := d.width.args ++ precisionArgs d.precision

/-- The precision, −1 without one. -/
def limit (d : Directive) : ℤ := (d.precision.map Amount.value).getD (-1)

/-- What is kept of it. -/
def spec (d : Directive) : FormatSpec where
  flags := d.flags.foldl (fun flags flag => flags ||| flag.bit) 0
  width := Int32.ofInt d.width.value
  precision := Int32.ofInt d.limit
  length := d.length

end Directive

/-- The specifiers that print something. -/
def specifiers : Str := str "%csdiuoxXp"

/-! ### What is taken -/

section
variable {rest : Str} {c : UInt8} {args : List UInt64}

theorem parseFlags_append (flags : List Flag) (hrest : rest.dropWhile isFlag = rest)
    (kept : UInt32) : parseFlags (flags.map Flag.char ++ rest) kept =
      (flags.foldl (fun kept flag => kept ||| flag.bit) kept, rest) := by
  induction flags generalizing kept with
  | nil =>
    cases rest with
    | nil => rfl
    | cons c rest =>
      exact parseFlags_end (List.dropWhile_eq_self_iff.mp hrest (Nat.succ_pos _)) rest kept
  | cons flag flags ih =>
    rw [List.map_cons, List.cons_append, parseFlags, List.foldl_cons]
    cases flag with
    | plus => exact ih _
    | space => exact ih _
    | minus => exact ih _
    | zero => exact ih _

theorem digit_isdigit (d : Fin 10) : isdigit (digitChar d) = true := by
  revert d
  decide

theorem digit_toInt32 (d : Fin 10) : (digitChar d - chr '0').toUInt32.toInt32 = Int32.ofNat d := by
  revert d
  decide

theorem parseNumber_append (digits : List (Fin 10)) (hrest : rest.dropWhile isdigit = rest) (n : ℕ) :
    parseNumber (digits.map (fun d => digitChar d.val) ++ rest) (Int32.ofNat n) =
      (Int32.ofNat (digits.foldl (fun n d => n * 10 + d.val) n), rest) := by
  induction digits generalizing n with
  | nil =>
    cases rest with
    | nil => rfl
    | cons c rest => exact if_neg (List.dropWhile_eq_self_iff.mp hrest (Nat.succ_pos _))
  | cons d digits ih =>
    have hnext : Int32.ofNat n * 10 + (digitChar d - chr '0').toUInt32.toInt32 =
        Int32.ofNat (n * 10 + d.val) := by
      rw [digit_toInt32, Int32.ofNat_add, Int32.ofNat_mul]
      rfl
    rw [List.map_cons, List.cons_append, parseNumber, if_pos (digit_isdigit d), hnext, ih,
      List.foldl_cons]

/-- What is behind a width or a precision. -/
theorem dropDigits_foreign (h : ∀ c ∈ rest.head?, Foreign c) : rest.dropWhile isdigit = rest := by
  cases rest with
  | nil => rfl
  | cons c rest =>
    exact List.dropWhile_cons_of_neg (by rw [(h c rfl).2.1]; exact Bool.false_ne_true)

theorem parseCount_append (amount : Amount) (hrest : ∀ c ∈ rest.head?, Foreign c) :
    parseCount (amount.chars ++ rest) (amount.args ++ args) =
      some (Int32.ofInt amount.value, rest, args) := by
  cases amount with
  | star slot =>
    have hstar : ((Amount.star slot).chars ++ rest).head? = some (chr '*') := rfl
    rw [parseCount, if_pos hstar, Amount.value, Int32.ofInt_toInt]
    rfl
  | number digits =>
    have hstar : ((Amount.number digits).chars ++ rest).head? ≠ some (chr '*') := by
      cases digits with
      | nil => exact fun heq => (hrest _ heq).2.2 rfl
      | cons d digits =>
        intro heq
        have hd := digit_isdigit d
        rw [show digitChar d = chr '*' from Option.some.inj heq] at hd
        revert hd
        decide
    have hnumber := parseNumber_append digits (dropDigits_foreign hrest) 0
    rw [parseCount, if_neg hstar, Amount.chars]
    rw [show (0 : Int32) = Int32.ofNat 0 from rfl, hnumber]
    rfl

theorem parsePrecision_append (precision : Option Amount)
    (hrest : ∀ c ∈ rest.head?, Foreign c ∧ c ≠ chr '.') :
    parsePrecision (precisionChars precision ++ rest) (precisionArgs precision ++ args) =
      some (Int32.ofInt ((precision.map Amount.value).getD (-1)), rest, args) := by
  cases precision with
  | none => exact if_neg fun heq => (hrest _ heq).2 rfl
  | some amount => exact parseCount_append amount fun c hc => (hrest c hc).1

theorem specifier_foreign (hc : c ∈ specifiers) : Foreign c ∧ c ≠ chr '.' := by
  have hall : specifiers.all (fun c => Foreign c ∧ c ≠ chr '.') = true := by decide
  exact of_decide_eq_true (List.all_eq_true.mp hall c hc)

/-- A specifier is behind a length modifier. -/
theorem parseLength_append (length : LengthModifier) (hc : c ∈ specifiers) (rest : Str) :
    parseLength (length.chars ++ c :: rest) = (length, c :: rest) := by
  have hall : specifiers.all (fun c => c ≠ chr 'h' ∧ c ≠ chr 'l' ∧ c ≠ chr 'j' ∧ c ≠ chr 'z' ∧
      c ≠ chr 't' ∧ c ≠ chr 'L') = true := by decide
  obtain ⟨hh, hl, hj, hz, ht, hL⟩ := of_decide_eq_true (List.all_eq_true.mp hall c hc)
  have hhead {e : UInt8} (he : c ≠ e) : (c :: rest).head? ≠ some e :=
    fun heq => he (Option.some.inj heq)
  cases length with
  | none =>
    rw [LengthModifier.chars, List.nil_append, parseLength, if_neg hh, if_neg hl, if_neg hj,
      if_neg hz, if_neg ht, if_neg hL]
  | h => exact if_neg (hhead hh)
  | l => exact if_neg (hhead hl)
  | hh => rfl
  | ll => rfl
  | j => rfl
  | z => rfl
  | t => rfl
  | L => rfl

/-- What is behind a precision. -/
theorem length_specifier_foreign (length : LengthModifier) (hc : c ∈ specifiers) (rest : Str) :
    ∀ e ∈ (length.chars ++ c :: rest).head?, Foreign e ∧ e ≠ chr '.' := by
  by_cases hnone : length = .none
  · subst hnone
    intro e he
    exact Option.some.inj he ▸ specifier_foreign hc
  · exact length_foreign hnone (c :: rest)

/-- What is behind a width. -/
theorem precision_foreign (d : Directive) (hc : c ∈ specifiers) (rest : Str) :
    ∀ e ∈ (precisionChars d.precision ++ (d.length.chars ++ c :: rest)).head?, Foreign e := by
  cases d.precision with
  | none => exact fun e he => (length_specifier_foreign d.length hc rest e he).1
  | some amount =>
    intro e he
    obtain rfl := Option.some.inj he
    decide

/-- What is behind the flags. -/
theorem width_dropFlags (d : Directive) (hrest : ∀ e ∈ rest.head?, Foreign e) :
    (d.width.chars ++ rest).dropWhile isFlag = d.width.chars ++ rest := by
  have hzero := d.width_head
  cases hwidth : d.width with
  | star slot => rfl
  | number digits =>
    cases digits with
    | nil => exact dropFlags_foreign hrest
    | cons e digits =>
      have hflag : ∀ e : Fin 10, digitChar e ≠ chr '0' → isFlag (digitChar e) = false := by decide
      refine List.dropWhile_cons_of_neg ?_
      rw [hwidth] at hzero
      rw [hflag e fun heq => hzero (congrArg some heq)]
      exact Bool.false_ne_true

/-- **A directive** is taken as it is meant. -/
theorem parseSpec_directive (d : Directive) (hc : c ∈ specifiers) (rest : Str)
    (args : List UInt64) :
    parseSpec (d.chars ++ c :: rest) (d.args ++ args) = some (d.spec, c :: rest, args) := by
  have hwidth := precision_foreign d hc rest
  have hprecision := length_specifier_foreign d.length hc rest
  unfold parseSpec
  simp only [Directive.chars, Directive.args, List.append_assoc,
    parseFlags_append d.flags (width_dropFlags d hwidth), parseCount_append d.width hwidth,
    parsePrecision_append d.precision hprecision, parseLength_append d.length hc,
    Option.bind_some, Option.map_some]
  rfl

/-- **A turn of the loop** for a directive. -/
theorem nextPiece_directive (mem : PrintfMemory) (d : Directive) (hc : c ∈ specifiers) (rest : Str)
    (args : List UInt64) (count : Int32) :
    nextPiece mem (chr '%' :: (d.chars ++ c :: rest)) (d.args ++ args) count =
      (convert mem rest.length d.spec c args count).map fun (piece, args) => (piece, rest, args) := by
  simp only [nextPiece, if_true, parseSpec_directive d hc, Option.bind_some]

theorem convert_integer (mem : PrintfMemory) (left : ℕ) (spec : FormatSpec) (conv : IntConversion)
    (slot : UInt64) (args : List UInt64) (count : Int32) :
    convert mem left spec conv.specifier (slot :: args) count =
      (formatInt (readValue conv spec.length slot) conv.base spec.width spec.precision spec.flags
        (mem.behind left)).map fun text => (⟨text, 1, none⟩, args) := by
  cases conv <;> rfl

/-- The string that `s` prints. -/
def stringAt (mem : PrintfMemory) (slot : UInt64) : Str :=
  if slot = 0 then str "(null)" else mem.string slot

theorem convert_string (mem : PrintfMemory) (left : ℕ) (spec : FormatSpec) (slot : UInt64)
    (args : List UInt64) (count : Int32) :
    convert mem left spec (chr 's') (slot :: args) count =
      some (⟨formatString (stringAt mem slot) spec.width spec.precision,
        Int32.ofNat (stringAt mem slot).length, none⟩, args) :=
  rfl

/-! ### What is kept -/

/-- The flags that are kept. -/
theorem kept_iff (flags : List Flag) (flag : Flag) (kept : UInt32) :
    flags.foldl (fun kept flag => kept ||| flag.bit) kept &&& flag.bit ≠ 0 ↔
      kept &&& flag.bit ≠ 0 ∨ flag ∈ flags := by
  induction flags generalizing kept with
  | nil => simp
  | cons other flags ih =>
    have hbit : (kept ||| other.bit) &&& flag.bit ≠ 0 ↔ kept &&& flag.bit ≠ 0 ∨ flag = other := by
      have hother : other.bit &&& flag.bit = 0 ↔ flag ≠ other := by
        cases other <;> cases flag <;> decide
      have hdistrib : (kept ||| other.bit) &&& flag.bit = kept &&& flag.bit ||| other.bit &&& flag.bit :=
        UInt32.toBitVec_inj.mp BitVec.and_or_distrib_right
      rw [hdistrib, ne_eq, UInt32.or_eq_zero_iff, not_and_or, hother, not_not]
    rw [List.foldl_cons, ih, hbit, List.mem_cons, or_assoc]

theorem Directive.flag_iff (d : Directive) (flag : Flag) :
    d.spec.flags &&& flag.bit ≠ 0 ↔ flag ∈ d.flags := by
  rw [Directive.spec, kept_iff]
  simp

theorem Amount.le_value (amount : Amount) : -2 ^ 31 ≤ amount.value := by
  cases amount with
  | number digits => exact (show (-2 ^ 31 : ℤ) ≤ 0 by decide).trans (Int.natCast_nonneg _)
  | star slot => exact slot.toUInt32.toInt32.le_toInt

theorem Directive.toInt_width (d : Directive) : d.spec.width.toInt = d.width.value :=
  Int32.toInt_ofInt_of_le d.width.le_value d.width_lt

theorem Directive.toInt_precision (d : Directive) : d.spec.precision.toInt = d.limit := by
  have hrange : -2 ^ 31 ≤ d.limit ∧ d.limit < 2 ^ 31 := by
    have hlt := d.precision_lt
    unfold Directive.limit
    cases hsome : d.precision with
    | none => decide
    | some amount => exact ⟨amount.le_value, hlt amount hsome⟩
  exact Int32.toInt_ofInt_of_le hrange.1 hrange.2

end

end PrismaticOS.Libc
