import PrismaticOS.Css.Tokenizer
import PrismaticOS.Libc.Search
import PrismaticOS.Libc.Strlen
import PrismaticOS.Libc.StrtoulResults

/-!
# Colours

`css_value_parse_color` gives what is behind a `#` to `strtoul`, and takes the layout from the
length of the string. It does not look whether all of it is a number, or begins with a `#`.

## The model

`NULL` and the address 0 are the same. A `css_value_t` whose type is `CSS_VALUE_COLOR` is its
colour, which is clear until it is set. Allocations succeed.

## What is proved

* `parseColor_returns` — a string is never rejected.
* `parseColor_digits` — the colour of hexadecimal digits.
* `color_grammar_iff` — a string yields what it should exactly if it is a `#` and 3, 4, 6 or 8
  hexadecimal digits.
-/

namespace PrismaticOS.Css

open PrismaticOS.Libc PrismaticOS.Library

/-! ### The function -/

/-- The colour of a `css_value_t`. -/
structure CssColor where
  /-- Red. -/
  r : UInt8
  /-- Green. -/
  g : UInt8
  /-- Blue. -/
  b : UInt8
  /-- Alpha. -/
  a : UInt8
  deriving DecidableEq

/-- The part of `css_value_parse_color` for a number and the length of the string. -/
def colorLayout (color length : ℕ) : CssColor :=
  if length = 4 then
    { r := .ofNat ((color >>> 8 &&& 0xF) * 17)
      g := .ofNat ((color >>> 4 &&& 0xF) * 17)
      b := .ofNat ((color &&& 0xF) * 17)
      a := 255 }
  else if length = 5 then
    { r := .ofNat ((color >>> 12 &&& 0xF) * 17)
      g := .ofNat ((color >>> 8 &&& 0xF) * 17)
      b := .ofNat ((color >>> 4 &&& 0xF) * 17)
      a := .ofNat ((color &&& 0xF) * 17) }
  else if length = 7 then
    { r := .ofNat (color >>> 16 &&& 0xFF)
      g := .ofNat (color >>> 8 &&& 0xFF)
      b := .ofNat (color &&& 0xFF)
      a := 255 }
  else if length = 9 then
    { r := .ofNat (color >>> 24 &&& 0xFF)
      g := .ofNat (color >>> 16 &&& 0xFF)
      b := .ofNat (color >>> 8 &&& 0xFF)
      a := .ofNat (color &&& 0xFF) }
  else ⟨0, 0, 0, 0⟩

/-- `css_value_parse_color`: `NULL`, or the colour of a value. -/
def cssValueParseColor (m : Mem) (str : ℕ) : Option (Option CssColor) :=
  if str = 0 then some none
  else if m str = chr '#' then
    (strtoul m (str + 1) 16).bind fun color =>
      (strlen m str).map fun length => some (colorLayout (ofInt 32 color.value) length.length)
  else some (some ⟨0, 0, 0, 0⟩)

/-! ### The grammar -/

/-- What a hexadecimal digit is worth. -/
def hexWorth (c : UInt8) : ℕ :=
  if isdigit c then c.toNat - (chr '0').toNat
  else if isupper c then c.toNat - (chr 'A').toNat + 10
  else c.toNat - (chr 'a').toNat + 10

/-- A byte of two digits. -/
def pair (x y : ℕ) : UInt8 := .ofNat (16 * x + y)

/-- The colour of the digits: single ones are doubled, and alpha is 255 if there is none. -/
def colorOfDigits : List ℕ → Option CssColor
  | [r, g, b] => some ⟨pair r r, pair g g, pair b b, 255⟩
  | [r, g, b, a] => some ⟨pair r r, pair g g, pair b b, pair a a⟩
  | [r, r', g, g', b, b'] => some ⟨pair r r', pair g g', pair b b', 255⟩
  | [r, r', g, g', b, b', a, a'] => some ⟨pair r r', pair g g', pair b b', pair a a'⟩
  | _ => none

/-- The colour that a string should yield, if it should yield one. -/
def colorOf : Str → Option CssColor
  | [] => none
  | c :: digits =>
    if c = chr '#' ∧ digits.all isxdigit then colorOfDigits (digits.map hexWorth) else none

/-- A `#` and 3, 4, 6 or 8 hexadecimal digits. -/
def IsHexColor (text : Str) : Prop :=
  ∃ digits, text = chr '#' :: digits ∧ digits.length ∈ [3, 4, 6, 8] ∧
    ∀ c ∈ digits, isxdigit c = true

section
variable {m : Mem} {p : ℕ} {text digits : Str} {c : UInt8}

theorem colorOfDigits_isSome (ds : List ℕ) :
    (colorOfDigits ds).isSome = true ↔ ds.length ∈ [3, 4, 6, 8] := by
  match ds with
  | [] => simp [colorOfDigits]
  | [_] => simp [colorOfDigits]
  | [_, _] => simp [colorOfDigits]
  | [_, _, _] => simp [colorOfDigits]
  | [_, _, _, _] => simp [colorOfDigits]
  | [_, _, _, _, _] => simp [colorOfDigits]
  | [_, _, _, _, _, _] => simp [colorOfDigits]
  | [_, _, _, _, _, _, _] => simp [colorOfDigits]
  | [_, _, _, _, _, _, _, _] => simp [colorOfDigits]
  | _ :: _ :: _ :: _ :: _ :: _ :: _ :: _ :: _ :: _ => simp [colorOfDigits]

/-- The strings that should yield a colour. -/
theorem colorOf_isSome (text : Str) : (colorOf text).isSome = true ↔ IsHexColor text := by
  cases text with
  | nil => exact iff_of_false nofun fun ⟨_, h, _⟩ => nomatch h
  | cons c digits =>
    rw [colorOf]
    split_ifs with h
    · rw [colorOfDigits_isSome, List.length_map]
      constructor
      · exact fun hlength => ⟨digits, by rw [h.1], hlength, List.all_eq_true.mp h.2⟩
      · rintro ⟨_, heq, hlength, -⟩
        obtain ⟨-, rfl⟩ := List.cons.inj heq
        exact hlength
    · refine iff_of_false nofun ?_
      rintro ⟨_, heq, -, hdigits⟩
      obtain ⟨rfl, rfl⟩ := List.cons.inj heq
      exact h ⟨rfl, List.all_eq_true.mpr hdigits⟩

/-! ### The digits -/

/-- `strtoul` and the grammar agree about a hexadecimal digit. -/
theorem digitWorth_hex (h : isxdigit c = true) :
    digitWorth c = some (hexWorth c) ∧ hexWorth c < 16 := by
  have h0 : (chr '0').toNat = 48 := rfl
  have h9 : (chr '9').toNat = 57 := rfl
  have hA : (chr 'A').toNat = 65 := rfl
  have hF : (chr 'F').toNat = 70 := rfl
  have hZ : (chr 'Z').toNat = 90 := rfl
  have ha : (chr 'a').toNat = 97 := rfl
  have hf : (chr 'f').toNat = 102 := rfl
  have hz : (chr 'z').toNat = 122 := rfl
  simp only [isxdigit, isdigit, Bool.or_eq_true, Bool.and_eq_true, decide_eq_true_eq,
    UInt8.le_iff_toNat_le] at h
  simp only [digitWorth, hexWorth, isalpha, isdigit, isupper, islower, Bool.or_eq_true,
    Bool.and_eq_true, decide_eq_true_eq, UInt8.le_iff_toNat_le]
  split_ifs <;> simp <;> omega

theorem isDigit_hex (h : isxdigit c = true) : IsDigit 16 c :=
  ⟨_, (digitWorth_hex h).1, (digitWorth_hex h).2⟩

/-- Hexadecimal digits are all that is scanned of them. -/
theorem scanned_hex (h : ∀ c ∈ digits, isxdigit c = true) : Scanned 16 ⟨[], [], [], digits⟩ [] where
  spaces := nofun
  solid c hc := by
    rw [List.append_nil] at hc
    exact isspace_of_isDigit (isDigit_hex (h c (List.mem_of_mem_head? hc)))
  sign := List.mem_cons_self
  unsigned _ c hc := by
    rw [List.append_nil] at hc
    have hdigit := isDigit_hex (h c (List.mem_of_mem_head? hc))
    exact ⟨fun heq => not_isDigit (.inl heq) hdigit, fun heq => not_isDigit (.inr heq) hdigit⟩
  hex := .inl rfl
  plain _ _ w hw hstart := by
    obtain ⟨b, rfl, hx⟩ := mem_hexPrefixes hw
    rw [List.append_nil] at hstart
    have hmem : b ∈ digits := hstart.subset (List.mem_cons_of_mem _ List.mem_cons_self)
    exact not_isDigit_x hx le_rfl (isDigit_hex (h b hmem))
  digits c hc := isDigit_hex (h c hc)
  stop := nofun

/-- The number of hexadecimal digits. -/
def hexNumber (digits : Str) : ℕ := Nat.ofDigits 16 (digits.map hexWorth).reverse

/-- **`strtoul`** on hexadecimal digits. -/
theorem strtoul_hex (h : IsString m p digits) (hend : p + digits.length < 2 ^ 64)
    (hdigits : ∀ c ∈ digits, isxdigit c = true) :
    ∃ r, strtoul m p 16 = some r ∧ r.value = (min ulongMax (hexNumber digits) : ℕ) := by
  have hmap : digits.filterMap digitWorth = digits.map hexWorth := by
    rw [← List.filterMap_eq_map]
    exact List.filterMap_congr fun c hc => (digitWorth_hex (hdigits c hc)).1
  have hchars : (⟨[], [], [], digits⟩ : Subject).chars ++ [] = digits := List.append_nil digits
  obtain ⟨a, hreads, hconvert⟩ := convert_scanned unsigned_limit (hchars.symm ▸ h)
    (hchars.symm ▸ hend) (.inr ⟨by decide, by decide⟩) (scanned_hex hdigits)
  refine ⟨_, hconvert, ?_⟩
  refine (unsigned_returned hreads).trans ?_
  rw [hexNumber, ← hmap]
  rfl

/-! ### The layouts -/

/-- Some bits of a number. -/
theorem bits_eq (n k w : ℕ) : n >>> k &&& (2 ^ w - 1) = n / 2 ^ k % 2 ^ w := by
  rw [Nat.and_two_pow_sub_one_eq_mod, Nat.shiftRight_eq_div_pow]

/-- **The layouts** put the digits where they belong. -/
theorem layout_digits {ds : List ℕ} (hds : ∀ d ∈ ds, d < 16) (hlength : ds.length ∈ [3, 4, 6, 8]) :
    colorOfDigits ds = some (colorLayout (Nat.ofDigits 16 ds.reverse) (ds.length + 1)) := by
  have hbits (n k) : n >>> k &&& 0xF = n / 2 ^ k % 16 := bits_eq n k 4
  have hlow (n) : n &&& 0xF = n % 16 := Nat.and_two_pow_sub_one_eq_mod n 4
  have hbyte (n k) : n >>> k &&& 0xFF = n / 2 ^ k % 256 := bits_eq n k 8
  have hlast (n) : n &&& 0xFF = n % 256 := Nat.and_two_pow_sub_one_eq_mod n 8
  match ds with
  | [r, g, b] =>
    simp only [List.forall_mem_cons] at hds
    obtain ⟨hr, hg, hb, -⟩ := hds
    have hnumber : Nat.ofDigits 16 [r, g, b].reverse = b + 16 * (g + 16 * r) := by
      simp [Nat.ofDigits_cons]
    rw [hnumber, colorOfDigits, colorLayout]
    simp only [List.length_cons, List.length_nil, hbits, hlow, Nat.reduceAdd, if_true, pair]
    congr 3 <;> omega
  | [r, g, b, a] =>
    simp only [List.forall_mem_cons] at hds
    obtain ⟨hr, hg, hb, ha, -⟩ := hds
    have hnumber : Nat.ofDigits 16 [r, g, b, a].reverse = a + 16 * (b + 16 * (g + 16 * r)) := by
      simp [Nat.ofDigits_cons]
    rw [hnumber, colorOfDigits, colorLayout]
    simp only [List.length_cons, List.length_nil, hbits, hlow, Nat.reduceAdd, Nat.reduceEqDiff,
      if_false, if_true, pair]
    congr 3 <;> omega
  | [r, r', g, g', b, b'] =>
    simp only [List.forall_mem_cons] at hds
    obtain ⟨hr, hr', hg, hg', hb, hb', -⟩ := hds
    have hnumber : Nat.ofDigits 16 [r, r', g, g', b, b'].reverse =
        b' + 16 * (b + 16 * (g' + 16 * (g + 16 * (r' + 16 * r)))) := by
      simp [Nat.ofDigits_cons]
    rw [hnumber, colorOfDigits, colorLayout]
    simp only [List.length_cons, List.length_nil, hbyte, hlast, Nat.reduceAdd, Nat.reduceEqDiff,
      if_false, if_true, pair]
    congr 3 <;> omega
  | [r, r', g, g', b, b', a, a'] =>
    simp only [List.forall_mem_cons] at hds
    obtain ⟨hr, hr', hg, hg', hb, hb', ha, ha', -⟩ := hds
    have hnumber : Nat.ofDigits 16 [r, r', g, g', b, b', a, a'].reverse =
        a' + 16 * (a + 16 * (b' + 16 * (b + 16 * (g' + 16 * (g + 16 * (r' + 16 * r)))))) := by
      simp [Nat.ofDigits_cons]
    rw [hnumber, colorOfDigits, colorLayout]
    simp only [List.length_cons, List.length_nil, hbyte, hlast, Nat.reduceAdd, Nat.reduceEqDiff,
      if_false, if_true, pair]
    congr 3 <;> omega
  | [] => simp at hlength
  | [_] => simp at hlength
  | [_, _] => simp at hlength
  | [_, _, _, _, _] => simp at hlength
  | [_, _, _, _, _, _, _] => simp at hlength
  | _ :: _ :: _ :: _ :: _ :: _ :: _ :: _ :: _ :: _ => simp at hlength

/-! ### The whole function -/

/-- What is read of a string that begins with a `#`. -/
theorem parseColor_hash (hp : p ≠ 0) (h : IsString m p (chr '#' :: digits))
    (hend : p + (chr '#' :: digits).length < 2 ^ 64) {r : Converted}
    (hr : strtoul m (p + 1) 16 = some r) :
    cssValueParseColor m p = some (some (colorLayout (ofInt 32 r.value) (digits.length + 1))) := by
  rw [cssValueParseColor, if_neg hp, if_pos h.1, hr, strlen_eq h.isLeast hend rfl]
  rfl

/-- **No string is rejected.** -/
theorem parseColor_returns (hp : p ≠ 0) (h : IsString m p text)
    (hend : p + text.length < 2 ^ 64) : ∃ color, cssValueParseColor m p = some (some color) := by
  by_cases hhash : m p = chr '#'
  · obtain ⟨digits, rfl⟩ : ∃ digits, text = chr '#' :: digits := by
      cases text with
      | nil => exact absurd (h.symm.trans hhash) (by decide)
      | cons c digits => exact ⟨digits, by rw [← hhash, h.1]⟩
    obtain ⟨x, more, rfl, hx⟩ := exists_scanned (.inr ⟨by decide, by decide⟩ :
      (16 : ℤ) = 0 ∨ 2 ≤ (16 : ℤ) ∧ (16 : ℤ) ≤ 36) digits
    rw [List.length_cons] at hend
    obtain ⟨a, -, hconvert⟩ := convert_scanned unsigned_limit h.2.2 (by omega)
      (.inr ⟨by decide, by decide⟩) hx
    exact ⟨_, parseColor_hash hp h hend hconvert⟩
  · exact ⟨⟨0, 0, 0, 0⟩, by rw [cssValueParseColor, if_neg hp, if_neg hhash]⟩

/-- **The colour of hexadecimal digits.** -/
theorem parseColor_digits (hp : p ≠ 0) (h : IsString m p (chr '#' :: digits))
    (hend : p + (chr '#' :: digits).length < 2 ^ 64) (hlength : digits.length ∈ [3, 4, 6, 8])
    (hdigits : ∀ c ∈ digits, isxdigit c = true) :
    cssValueParseColor m p = some (colorOfDigits (digits.map hexWorth)) := by
  have hworth : ∀ d ∈ digits.map hexWorth, d < 16 := by
    intro d hd
    obtain ⟨c, hc, rfl⟩ := List.mem_map.mp hd
    exact (digitWorth_hex (hdigits c hc)).2
  have hsmall : hexNumber digits < 2 ^ 32 := by
    have hlt := Nat.ofDigits_lt_base_pow_length (b := 16) (l := (digits.map hexWorth).reverse)
      (by decide) fun d hd => hworth d (List.mem_reverse.mp hd)
    rw [List.length_reverse, List.length_map] at hlt
    have hpow : 16 ^ digits.length ≤ 16 ^ 8 := Nat.pow_le_pow_right (by decide) (by
      simp only [List.mem_cons, List.not_mem_nil, or_false] at hlength
      omega)
    exact lt_of_lt_of_le hlt hpow
  obtain ⟨r, hr, hvalue⟩ := strtoul_hex h.2.2 (by rw [List.length_cons] at hend; omega) hdigits
  have hcolor : ofInt 32 r.value = hexNumber digits := by
    rw [hvalue, Nat.min_eq_right (by unfold ulongMax; omega), ofInt]
    omega
  rw [parseColor_hash hp h hend hr, hcolor, layout_digits hworth (by rwa [List.length_map]),
    List.length_map]
  rfl

/-- **The grammar of colours.** A string yields what it should, a colour or nothing, exactly if it
is a `#` and 3, 4, 6 or 8 hexadecimal digits. -/
theorem color_grammar_iff (hp : p ≠ 0) (h : IsString m p text) (hend : p + text.length < 2 ^ 64) :
    cssValueParseColor m p = some (colorOf text) ↔ IsHexColor text := by
  rw [← colorOf_isSome]
  constructor
  · intro hright
    obtain ⟨color, hcolor⟩ := parseColor_returns hp h hend
    rw [hcolor] at hright
    rw [← Option.some.inj hright]
    rfl
  · intro hsome
    obtain ⟨digits, rfl, hlength, hdigits⟩ := (colorOf_isSome text).mp hsome
    rw [parseColor_digits hp h hend hlength hdigits, colorOf,
      if_pos ⟨rfl, List.all_eq_true.mpr hdigits⟩]

end

/-- The string "#f60". -/
theorem color_grammar_orange :
    cssValueParseColor (fun a => (str "#f60").getD (a - 8) 0) 8 = some (colorOf (str "#f60")) ↔
      IsHexColor (str "#f60") :=
  color_grammar_iff (by decide) (IsString.of_getD (by decide) (by decide)) (by decide)

/-- The string "red" yields a colour, a clear one. -/
theorem red_yields_color : ¬ ∀ (m : Mem) (p : ℕ) (text : Str), p ≠ 0 → IsString m p text →
    p + text.length < 2 ^ 64 → cssValueParseColor m p = some (colorOf text) := by
  intro h
  have hstring : IsString (fun a => (str "red").getD (a - 8) 0) 8 (str "red") :=
    IsString.of_getD (by decide) (by decide)
  have hcolor := h _ 8 (str "red") (by decide) hstring (by decide)
  rw [cssValueParseColor, if_neg (by decide), if_neg (by decide)] at hcolor
  cases hcolor

end PrismaticOS.Css
