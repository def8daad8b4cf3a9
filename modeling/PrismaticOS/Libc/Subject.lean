import PrismaticOS.Libc.Strtol
import PrismaticOS.Library.TextRuns

/-!
# Numbers in a text

The subject sequences of the C grammar, and which one `strtol` and the functions beside it read.

## The model

A subject has whitespace, a sign, a hexadecimal prefix and digits, of which all but the digits may
be missing (`Subject.Valid`). What should be read is the longest subject with which the text begins
(`Subject.Longest`). What the code reads is told apart by what stops each of its loops
(`Scanned`): it takes the prefix before it knows whether a digit follows.

## What is proved

* `exists_scanned` — every text is scanned in some way.
* `Scanned.longest` — with digits, what is scanned is the longest subject.
* `Scanned.not_valid` — without digits and prefix, there is none.
* `Scanned.bare` — with a prefix but without digits behind it, the longest subject is the zero.
* `Scanned.longest_number` — the longest subject has the sign and the number that are scanned.
* `exists_longest` — a text with a subject has a longest one.
-/

namespace PrismaticOS.Libc

open PrismaticOS.Library

/-! ### The grammar -/

/-- The parts of a number in a text. -/
structure Subject where
  /-- Whitespace. -/
  spaces : Str
  /-- A sign. -/
  sign : Str
  /-- The hexadecimal prefix. -/
  hex : Str
  /-- The digits. -/
  digits : Str

/-- The signs, the empty one being one. -/
def signs : List Str := [[], [chr '+'], [chr '-']]

/-- The hexadecimal prefixes. -/
def hexPrefixes : List Str := [str "0x", str "0X"]

/-- The base of the digits at the start of a text: 16 with the prefix, and with base 0 otherwise 8
if they begin with a zero, and 10. -/
def radixOf (hex : Str) (base : ℤ) (text : Str) : ℕ :=
  if hex ≠ [] then 16
  else if base = 0 then if text.head? = some (chr '0') then 8 else 10
  else base.toNat

namespace Subject

/-- All the characters. -/
def chars (x : Subject) : Str := x.spaces ++ (x.sign ++ (x.hex ++ x.digits))

/-- The base of the digits. -/
def radix (x : Subject) (base : ℤ) : ℕ := radixOf x.hex base x.digits

/-- The number of the digits. -/
def number (x : Subject) (base : ℤ) : ℕ :=
  Nat.ofDigits (x.radix base) (x.digits.filterMap digitWorth).reverse

/-- The integer that is denoted. -/
def value (x : Subject) (base : ℤ) : ℤ :=
  if x.sign = [chr '-'] then -(x.number base : ℤ) else x.number base

/-- The parts are those of a subject sequence. -/
structure Valid (x : Subject) (base : ℤ) : Prop where
  /-- Whitespace. -/
  spaces : ∀ c ∈ x.spaces, isspace c = true
  /-- A sign, or none. -/
  sign : x.sign ∈ signs
  /-- A prefix, if the base allows it. -/
  hex : x.hex = [] ∨ (base = 0 ∨ base = 16) ∧ x.hex ∈ hexPrefixes
  /-- Digits of the base. -/
  digits : ∀ c ∈ x.digits, IsDigit (x.radix base) c
  /-- One at least. -/
  some : x.digits ≠ []

/-- The longest subject sequence with which the text begins. -/
structure Longest (x : Subject) (base : ℤ) (text : Str) : Prop where
  /-- It is one. -/
  valid : x.Valid base
  /-- The text begins with it. -/
  starts : x.chars <+: text
  /-- No other one is longer. -/
  longest : ∀ y : Subject, y.Valid base → y.chars <+: text → y.chars.length ≤ x.chars.length

end Subject

/-- What the code scans at the start of a text, with what it leaves. -/
structure Scanned (base : ℤ) (x : Subject) (more : Str) : Prop where
  /-- Whitespace. -/
  spaces : ∀ c ∈ x.spaces, isspace c = true
  /-- The loop over it stops. -/
  solid : ∀ c ∈ (x.sign ++ (x.hex ++ (x.digits ++ more))).head?, isspace c = false
  /-- A sign, or none. -/
  sign : x.sign ∈ signs
  /-- There is no sign. -/
  unsigned : x.sign = [] →
    ∀ c ∈ (x.hex ++ (x.digits ++ more)).head?, c ≠ chr '+' ∧ c ≠ chr '-'
  /-- A prefix, if the base allows it. -/
  hex : x.hex = [] ∨ (base = 0 ∨ base = 16) ∧ x.hex ∈ hexPrefixes
  /-- There is no prefix. -/
  plain : x.hex = [] → base = 0 ∨ base = 16 → ∀ h ∈ hexPrefixes, ¬ h <+: x.digits ++ more
  /-- Digits of the base. -/
  digits : ∀ c ∈ x.digits, IsDigit (x.radix base) c
  /-- The loop over them stops. -/
  stop : ∀ c ∈ more.head?, ¬ IsDigit (x.radix base) c

section
variable {base : ℤ} {x y : Subject} {text more post : Str} {c : UInt8} {r : ℕ}

/-! ### Digits -/

/-- A zero is a digit of every base. -/
theorem isDigit_zero (hr : 2 ≤ r) : IsDigit r (chr '0') := ⟨0, by decide, by omega⟩

/-- No other character of the grammar is one. -/
theorem not_isDigit (h : c = chr '+' ∨ c = chr '-') : ¬ IsDigit r c := by
  rintro ⟨d, hd, -⟩
  rcases h with rfl | rfl <;> cases hd

theorem isspace_of_isDigit (h : IsDigit r c) : isspace c = false := by
  obtain ⟨d, hd, -⟩ := h
  by_contra hspace
  simp only [isspace, Bool.not_eq_false, Bool.or_eq_true, beq_iff_eq, or_assoc] at hspace
  rcases hspace with rfl | rfl | rfl | rfl | rfl | rfl <;> cases hd

/-- The letter of the prefix is a digit of bases from 34 on only. -/
theorem not_isDigit_x (h : c = chr 'x' ∨ c = chr 'X') (hr : r ≤ 16) : ¬ IsDigit r c := by
  rintro ⟨d, hd, hlt⟩
  have hworth : digitWorth c = some 33 := by rcases h with rfl | rfl <;> rfl
  rw [hworth] at hd
  cases hd
  omega

/-- The bases are from 2 to 36. -/
theorem radixOf_range (hbase : base = 0 ∨ 2 ≤ base ∧ base ≤ 36) (hex text : Str) :
    2 ≤ radixOf hex base text ∧ radixOf hex base text ≤ 36 := by
  unfold radixOf
  split_ifs <;> omega

/-- What is behind the digits does not matter if they are there. -/
theorem radixOf_append {hex digits : Str} (h : digits = [] → more.head? ≠ some (chr '0')) :
    radixOf hex base (digits ++ more) = radixOf hex base digits := by
  cases digits with
  | nil =>
    have hhead : ([] : Str).head? ≠ some (chr '0') := nofun
    unfold radixOf
    rw [List.nil_append, if_neg (h rfl), if_neg hhead]
  | cons c digits => rfl

/-! ### Scanning -/

theorem mem_hexPrefixes {h : Str} (hh : h ∈ hexPrefixes) :
    ∃ c, h = [chr '0', c] ∧ (c = chr 'x' ∨ c = chr 'X') := by
  rw [hexPrefixes, List.mem_pair] at hh
  rcases hh with rfl | rfl
  · exact ⟨chr 'x', rfl, .inl rfl⟩
  · exact ⟨chr 'X', rfl, .inr rfl⟩

/-- The digits of a text. -/
theorem exists_digits (hbase : base = 0 ∨ 2 ≤ base ∧ base ≤ 36) (hex text : Str) :
    ∃ digits more, text = digits ++ more ∧ (∀ c ∈ digits, IsDigit (radixOf hex base digits) c) ∧
      ∀ c ∈ more.head?, ¬ IsDigit (radixOf hex base digits) c := by
  obtain ⟨digits, more, rfl, hdigits, hmore⟩ :=
    exists_span (fun c => ¬ IsDigit (radixOf hex base text) c) text
  simp only [not_not] at hdigits
  have hzero : digits = [] → more.head? ≠ some (chr '0') := fun _ hhead =>
    hmore _ hhead (isDigit_zero (radixOf_range hbase hex _).1)
  rw [radixOf_append hzero] at hdigits hmore
  exact ⟨digits, more, rfl, hdigits, hmore⟩

/-- The prefix of a text. -/
theorem exists_hex (base : ℤ) (text : Str) :
    ∃ hex rest, text = hex ++ rest ∧ (hex = [] ∨ (base = 0 ∨ base = 16) ∧ hex ∈ hexPrefixes) ∧
      (hex = [] → base = 0 ∨ base = 16 → ∀ h ∈ hexPrefixes, ¬ h <+: rest) := by
  by_cases hthere : (base = 0 ∨ base = 16) ∧ ∃ h ∈ hexPrefixes, h <+: text
  · obtain ⟨hallowed, h, hh, rest, rfl⟩ := hthere
    refine ⟨h, rest, rfl, .inr ⟨hallowed, hh⟩, fun hnil => ?_⟩
    obtain ⟨c, rfl, -⟩ := mem_hexPrefixes hh
    cases hnil
  · exact ⟨[], text, rfl, .inl rfl, fun _ hallowed h hh hstart => hthere ⟨hallowed, h, hh, hstart⟩⟩

/-- The sign of a text. -/
theorem exists_sign (text : Str) : ∃ sign rest, text = sign ++ rest ∧ sign ∈ signs ∧
    (sign = [] → ∀ c ∈ rest.head?, c ≠ chr '+' ∧ c ≠ chr '-') := by
  cases text with
  | nil => exact ⟨[], [], rfl, by decide, nofun⟩
  | cons c text =>
    by_cases hplus : c = chr '+'
    · exact ⟨[c], text, rfl, by rw [hplus]; decide, nofun⟩
    by_cases hminus : c = chr '-'
    · exact ⟨[c], text, rfl, by rw [hminus]; decide, nofun⟩
    refine ⟨[], c :: text, rfl, by decide, fun _ d hd => ?_⟩
    rw [← Option.some.inj hd]
    exact ⟨hplus, hminus⟩

/-- **Every text is scanned.** -/
theorem exists_scanned (hbase : base = 0 ∨ 2 ≤ base ∧ base ≤ 36) (text : Str) :
    ∃ x more, text = x.chars ++ more ∧ Scanned base x more := by
  obtain ⟨spaces, rest, rfl, hspaces, hsolid⟩ := exists_span (fun c => isspace c = false) text
  obtain ⟨sign, rest, rfl, hsign, hunsigned⟩ := exists_sign rest
  obtain ⟨hex, rest, rfl, hhex, hplain⟩ := exists_hex base rest
  obtain ⟨digits, more, rfl, hdigits, hstop⟩ := exists_digits hbase hex rest
  refine ⟨⟨spaces, sign, hex, digits⟩, more, by simp [Subject.chars], ?_⟩
  exact ⟨fun c hc => Bool.not_eq_false _ ▸ hspaces c hc, hsolid, hsign, hunsigned, hhex, hplain,
    hdigits, hstop⟩

/-! ### Subjects of a scanned text -/

/-- A subject goes on with a digit after its sign. -/
theorem Subject.Valid.head (hy : y.Valid base) :
    ∀ c ∈ (y.hex ++ (y.digits ++ post)).head?, ∃ r, IsDigit r c := by
  intro c hc
  rcases hy.hex with hnil | ⟨-, hhex⟩
  · obtain ⟨d, ds, hdigits⟩ := List.exists_cons_of_ne_nil hy.some
    rw [hnil, hdigits] at hc
    rw [← Option.some.inj hc]
    exact ⟨_, hy.digits d (hdigits ▸ List.mem_cons_self)⟩
  · obtain ⟨d, hhex, -⟩ := mem_hexPrefixes hhex
    rw [hhex] at hc
    rw [← Option.some.inj hc]
    exact ⟨2, isDigit_zero le_rfl⟩

/-- The whitespace at the start of a text. -/
theorem spaces_unique {a a' r r' : Str} (ha : ∀ c ∈ a, isspace c = true)
    (ha' : ∀ c ∈ a', isspace c = true) (hr : ∀ c ∈ r.head?, isspace c = false)
    (hr' : ∀ c ∈ r'.head?, isspace c = false) (h : a ++ r = a' ++ r') : a = a' ∧ r = r' := by
  have heq : a = a' := by
    rw [← takeWhile_to ha hr, h, takeWhile_to ha' hr']
  rw [heq] at h
  exact ⟨heq, List.append_cancel_left h⟩

/-- The sign at the start of a text. -/
theorem sign_unique {a a' r r' : Str} (ha : a ∈ signs) (ha' : a' ∈ signs)
    (hr : a = [] → ∀ c ∈ r.head?, c ≠ chr '+' ∧ c ≠ chr '-')
    (hr' : a' = [] → ∀ c ∈ r'.head?, c ≠ chr '+' ∧ c ≠ chr '-') (h : a ++ r = a' ++ r') :
    a = a' ∧ r = r' := by
  have hsome {b t u : Str} (hb : b ∈ signs) (hne : b ≠ []) (heq : u = b ++ t)
      (hu : ∀ c ∈ u.head?, c ≠ chr '+' ∧ c ≠ chr '-') : False := by
    simp only [signs, List.mem_cons, List.not_mem_nil, or_false] at hb
    rcases hb with rfl | rfl | rfl
    · exact hne rfl
    · exact (hu (chr '+') (by rw [heq]; rfl)).1 rfl
    · exact (hu (chr '-') (by rw [heq]; rfl)).2 rfl
  by_cases hnil : a = []
  · by_cases hnil' : a' = []
    · rw [hnil, hnil'] at h
      exact ⟨hnil.trans hnil'.symm, h⟩
    · rw [hnil] at h
      exact (hsome ha' hnil' h (hr hnil)).elim
  · by_cases hnil' : a' = []
    · rw [hnil'] at h
      exact (hsome ha hnil h.symm (hr' hnil')).elim
    · -- both are one character
      have hlen {b : Str} (hb : b ∈ signs) (hne : b ≠ []) : b.length = 1 := by
        simp only [signs, List.mem_cons, List.not_mem_nil, or_false] at hb
        rcases hb with rfl | rfl | rfl
        · exact absurd rfl hne
        · rfl
        · rfl
      exact List.append_inj h ((hlen ha hnil).trans (hlen ha' hnil').symm)

/-- Digits are part of the digits that the loop reads. -/
theorem digits_unique {a a' r' : Str} (ha : ∀ c ∈ a, IsDigit r c)
    (hr' : ∀ c ∈ r'.head?, ¬ IsDigit r c) (h : a ++ post = a' ++ r') : a <+: a' := by
  rcases List.append_eq_append_iff.mp h with ⟨d, rfl, -⟩ | ⟨d, rfl, rfl⟩
  · exact List.prefix_append a d
  · cases d with
    | nil => rw [List.append_nil]
    | cons c d => exact absurd (ha c (List.mem_append_right _ List.mem_cons_self)) (hr' c rfl)

/-- The prefix and the digits: the prefix is the same, or the zero of it is the number. -/
theorem Scanned.hex_cases (hx : Scanned base x more) (hbase : base = 0 ∨ 2 ≤ base ∧ base ≤ 36)
    (hy : y.Valid base) (h : y.hex ++ (y.digits ++ post) = x.hex ++ (x.digits ++ more)) :
    (y.hex = x.hex ∧ y.digits <+: x.digits) ∨
      (y.hex = [] ∧ x.hex ≠ [] ∧ y.digits = [chr '0']) := by
  by_cases hsame : y.hex = x.hex
  · rw [hsame] at h
    have hdigits := List.append_cancel_left h
    have hzero : x.digits = [] → more.head? ≠ some (chr '0') := fun _ hhead =>
      hx.stop _ hhead (isDigit_zero (radixOf_range hbase _ _).1)
    have hpost : radixOf x.hex base (y.digits ++ post) = radixOf x.hex base y.digits :=
      radixOf_append fun hnil => absurd hnil hy.some
    have hradix : y.radix base = x.radix base := by
      rw [Subject.radix, Subject.radix, hsame, ← hpost, hdigits, radixOf_append hzero]
    refine .inl ⟨hsame, digits_unique hy.digits ?_ hdigits⟩
    rw [hradix]
    exact hx.stop
  · rcases hy.hex with hnil | ⟨hallowed, hhex⟩
    · rw [hnil, List.nil_append] at h
      rcases hx.hex with hnil' | ⟨hallowed, hhex⟩
      · exact absurd (hnil.trans hnil'.symm) hsame
      · obtain ⟨c, hhex, hc⟩ := mem_hexPrefixes hhex
        obtain ⟨d, ds, hdigits⟩ := List.exists_cons_of_ne_nil hy.some
        rw [hhex, hdigits] at h
        obtain ⟨rfl, hrest⟩ := List.cons_eq_cons.mp h
        refine .inr ⟨hnil, by rw [hhex]; exact List.cons_ne_nil _ _, ?_⟩
        cases ds with
        | nil => exact hdigits
        | cons d ds =>
          -- the letter would be a digit of base 8 or 16
          obtain ⟨rfl, -⟩ := List.cons_eq_cons.mp hrest
          have hradix : y.radix base ≤ 16 := by
            unfold Subject.radix radixOf
            split_ifs <;> omega
          have hmem : d ∈ y.digits := by
            rw [hdigits]
            exact List.mem_cons_of_mem _ List.mem_cons_self
          exact absurd (hy.digits d hmem) (not_isDigit_x hc hradix)
    · rcases hx.hex with hnil' | ⟨-, hhex'⟩
      · rw [hnil', List.nil_append] at h
        exact absurd ⟨_, h⟩ (hx.plain hnil' hallowed _ hhex)
      · obtain ⟨c, hc, -⟩ := mem_hexPrefixes hhex
        obtain ⟨c', hc', -⟩ := mem_hexPrefixes hhex'
        rw [hc, hc'] at h hsame
        exact absurd (List.append_inj h rfl).1 hsame

/-- **A subject with which a scanned text begins.** -/
theorem Scanned.cases (hx : Scanned base x more) (hbase : base = 0 ∨ 2 ≤ base ∧ base ≤ 36)
    (hy : y.Valid base) (h : y.chars <+: x.chars ++ more) :
    y.spaces = x.spaces ∧ y.sign = x.sign ∧ ((y.hex = x.hex ∧ y.digits <+: x.digits) ∨
      (y.hex = [] ∧ x.hex ≠ [] ∧ y.digits = [chr '0'])) := by
  obtain ⟨post, h⟩ := h
  simp only [Subject.chars, List.append_assoc] at h
  have hsolid : ∀ c ∈ (y.sign ++ (y.hex ++ (y.digits ++ post))).head?, isspace c = false := by
    have hsign := hy.sign
    simp only [signs, List.mem_cons, List.not_mem_nil, or_false] at hsign
    intro c hc
    rcases hsign with hnil | hplus | hminus
    · rw [hnil] at hc
      obtain ⟨r, hr⟩ := hy.head c hc
      exact isspace_of_isDigit hr
    · rw [hplus] at hc
      rw [← Option.some.inj hc]
      rfl
    · rw [hminus] at hc
      rw [← Option.some.inj hc]
      rfl
  have hunsigned : y.sign = [] →
      ∀ c ∈ (y.hex ++ (y.digits ++ post)).head?, c ≠ chr '+' ∧ c ≠ chr '-' := fun _ c hc => by
    obtain ⟨r, hr⟩ := hy.head c hc
    exact ⟨fun heq => not_isDigit (.inl heq) hr, fun heq => not_isDigit (.inr heq) hr⟩
  obtain ⟨hspaces, h⟩ := spaces_unique hy.spaces hx.spaces hsolid hx.solid h
  obtain ⟨hsign, h⟩ := sign_unique hy.sign hx.sign hunsigned hx.unsigned h
  exact ⟨hspaces, hsign, hx.hex_cases hbase hy h⟩

/-- What was scanned is a subject if there are digits. -/
theorem Scanned.valid (hx : Scanned base x more) (hne : x.digits ≠ []) : x.Valid base :=
  ⟨hx.spaces, hx.sign, hx.hex, hx.digits, hne⟩

/-- **There are digits**: it is the longest subject, and the only one of its length. -/
theorem Scanned.longest (hx : Scanned base x more) (hbase : base = 0 ∨ 2 ≤ base ∧ base ≤ 36)
    (hne : x.digits ≠ []) :
    x.Longest base (x.chars ++ more) ∧
      ∀ y : Subject, y.Longest base (x.chars ++ more) → y = x := by
  have hlength {y : Subject} (hy : y.Valid base) (hstart : y.chars <+: x.chars ++ more) :
      y.chars.length ≤ x.chars.length ∧ (x.chars.length ≤ y.chars.length → y = x) := by
    obtain ⟨hspaces, hsign, ⟨hhex, hdigits⟩ | ⟨hhex, hhex', hdigits⟩⟩ := hx.cases hbase hy hstart
    · simp only [Subject.chars, List.length_append, hspaces, hsign, hhex]
      refine ⟨by have hle := hdigits.length_le; omega, fun hle => ?_⟩
      have heq := hdigits.eq_of_length_le (by omega)
      cases x
      cases y
      simp only at hspaces hsign hhex heq
      rw [hspaces, hsign, hhex, heq]
    · -- the zero alone is shorter
      have hpos := List.length_pos_iff.mpr hne
      have hpos' := List.length_pos_iff.mpr hhex'
      simp only [Subject.chars, List.length_append, hspaces, hsign, hhex, hdigits, List.length_cons,
        List.length_nil]
      omega
  have hvalid := hx.valid hne
  refine ⟨⟨hvalid, List.prefix_append .., fun y hy hstart => (hlength hy hstart).1⟩, fun y hy => ?_⟩
  exact (hlength hy.valid hy.starts).2 (hy.longest x hvalid (List.prefix_append ..))

/-- **There is neither a prefix nor a digit**: there is no subject. -/
theorem Scanned.not_valid (hx : Scanned base x more) (hbase : base = 0 ∨ 2 ≤ base ∧ base ≤ 36)
    (hdigits : x.digits = []) (hhex : x.hex = []) :
    ¬ ∃ y : Subject, y.Valid base ∧ y.chars <+: x.chars ++ more := by
  rintro ⟨y, hy, hstart⟩
  obtain ⟨-, -, ⟨-, hsub⟩ | ⟨-, hne, -⟩⟩ := hx.cases hbase hy hstart
  · rw [hdigits, List.prefix_nil] at hsub
    exact hy.some hsub
  · exact hne hhex

/-- The zero of a prefix as the number. -/
def Subject.zero (x : Subject) : Subject := ⟨x.spaces, x.sign, [], [chr '0']⟩

/-- **There is a prefix and no digit behind it**: the zero alone is the longest subject. -/
theorem Scanned.bare (hx : Scanned base x more) (hbase : base = 0 ∨ 2 ≤ base ∧ base ≤ 36)
    (hdigits : x.digits = []) (hhex : x.hex ≠ []) :
    x.zero.Longest base (x.chars ++ more) ∧
      ∀ y : Subject, y.Longest base (x.chars ++ more) → y = x.zero := by
  have honly {y : Subject} (hy : y.Valid base) (hstart : y.chars <+: x.chars ++ more) :
      y = x.zero := by
    obtain ⟨hspaces, hsign, ⟨-, hsub⟩ | ⟨hnil, -, hzero⟩⟩ := hx.cases hbase hy hstart
    · rw [hdigits, List.prefix_nil] at hsub
      exact absurd hsub hy.some
    · cases y
      simp only at hspaces hsign hnil hzero
      rw [Subject.zero, hspaces, hsign, hnil, hzero]
  obtain ⟨-, hmem⟩ := hx.hex.resolve_left hhex
  obtain ⟨c, hc, -⟩ := mem_hexPrefixes hmem
  refine ⟨⟨⟨hx.spaces, hx.sign, .inl rfl, fun d hd => ?_, List.cons_ne_nil _ _⟩, ?_, ?_⟩,
    fun y hy => honly hy.valid hy.starts⟩
  · rw [List.mem_singleton.mp hd]
    exact isDigit_zero (radixOf_range hbase _ _).1
  · refine ⟨c :: (x.digits ++ more), ?_⟩
    simp only [Subject.chars, Subject.zero, hc, List.append_assoc, List.nil_append,
      List.cons_append]
  · intro y hy hstart
    rw [honly hy hstart]

/-- **The longest subject** has the sign and the number that are scanned: the zero of a prefix without
digits is 0, as no digits are. -/
theorem Scanned.longest_number (hx : Scanned base x more) (hbase : base = 0 ∨ 2 ≤ base ∧ base ≤ 36)
    (hy : y.Longest base (x.chars ++ more)) : y.sign = x.sign ∧ y.number base = x.number base := by
  by_cases hdigits : x.digits = []
  · by_cases hhex : x.hex = []
    · exact absurd ⟨y, hy.valid, hy.starts⟩ (hx.not_valid hbase hdigits hhex)
    · have hnumber : x.number base = 0 := by
        rw [Subject.number, hdigits]
        rfl
      rw [(hx.bare hbase hdigits hhex).2 y hy, hnumber]
      exact ⟨rfl, rfl⟩
  · rw [(hx.longest hbase hdigits).2 y hy]
    exact ⟨rfl, rfl⟩

/-- There is a longest subject if there is one at all. -/
theorem exists_longest (hbase : base = 0 ∨ 2 ≤ base ∧ base ≤ 36)
    (h : ∃ y : Subject, y.Valid base ∧ y.chars <+: text) : ∃ x : Subject, x.Longest base text := by
  obtain ⟨x, more, rfl, hx⟩ := exists_scanned hbase text
  by_cases hdigits : x.digits = []
  · by_cases hhex : x.hex = []
    · exact absurd h (hx.not_valid hbase hdigits hhex)
    · exact ⟨_, (hx.bare hbase hdigits hhex).1⟩
  · exact ⟨x, (hx.longest hbase hdigits).1⟩

end

end PrismaticOS.Libc
