import PrismaticOS.Libc.Subject

/-!
# What `strtol` and the functions beside it return

## What is proved

* `convert_scanned` — the body of the four functions, on a scanned text.
* `strtol_saturates` — `strtol` and `strtoll` return the longest number of the text, clamped, and no
  operation wraps around.
* `endptr_iff` — the exact condition for the end pointer of all four functions to be right.
* `bare_prefix_end` — a prefix without a digit behind it.
-/

namespace PrismaticOS.Libc

open PrismaticOS.Library

section
variable {m : Mem} {p nptr limit r : ℕ} {base : ℤ} {t : IntType} {x : Subject} {text rest more : Str}
  {sign hex digits : Str} {a : Accumulator}

/-! ### The code on a scanned text -/

/-- The sign. -/
theorem readSign_eq (h : IsString m p (sign ++ rest)) (hsign : sign ∈ signs)
    (hrest : sign = [] → ∀ c ∈ rest.head?, c ≠ chr '+' ∧ c ≠ chr '-') :
    readSign m (m p) (p + 1) =
      (decide (sign = [chr '-']), m (p + sign.length), p + sign.length + 1) := by
  simp only [signs, List.mem_cons, List.not_mem_nil, or_false] at hsign
  rcases hsign with rfl | rfl | rfl
  · have hfirst := first_byte h
    have hplus : m p ≠ chr '+' ∧ m p ≠ chr '-' := by
      rw [hfirst, List.nil_append]
      cases rest with
      | nil => decide
      | cons c rest => exact hrest rfl c rfl
    rw [readSign, if_neg hplus.2, if_neg hplus.1]
    rfl
  · rw [readSign, h.1]
    rfl
  · rw [readSign, h.1]
    rfl

/-- A byte that is not zero is in the string. -/
theorem exists_cons_of_byte (h : IsString m p rest) (hbyte : m p ≠ 0) :
    ∃ c tail, rest = c :: tail :=
  List.exists_cons_of_ne_nil fun hnil => hbyte (h.head_eq_zero_iff.mpr hnil)

/-- The base prefix. -/
theorem readBase_eq (h : IsString m p (hex ++ rest)) (hbase : base = 0 ∨ 2 ≤ base ∧ base ≤ 36)
    (hhex : hex = [] ∨ (base = 0 ∨ base = 16) ∧ hex ∈ hexPrefixes)
    (hplain : hex = [] → base = 0 ∨ base = 16 → ∀ h ∈ hexPrefixes, ¬ h <+: rest) :
    readBase m base (m p) (p + 1) =
      ((radixOf hex base rest : ℤ), m (p + hex.length), p + hex.length + 1) := by
  rcases hhex with rfl | ⟨hallowed, hmem⟩
  · rw [List.nil_append] at h
    have hnone : ¬ ((base = 0 ∨ base = 16) ∧ m p = chr '0' ∧
        (m (p + 1) = chr 'x' ∨ m (p + 1) = chr 'X')) := by
      rintro ⟨hallowed, hzero, hletter⟩
      obtain ⟨d, rest, rfl⟩ := exists_cons_of_byte h (by rw [hzero]; decide)
      obtain ⟨e, rest, rfl⟩ := exists_cons_of_byte h.2.2 (by
        rcases hletter with hletter | hletter <;> rw [hletter] <;> decide)
      rw [h.1] at hzero
      rw [h.2.2.1] at hletter
      refine hplain rfl hallowed [chr '0', e] ?_ ⟨rest, by rw [hzero]; rfl⟩
      rcases hletter with rfl | rfl <;> decide
    have hzero : m p = chr '0' ↔ rest.head? = some (chr '0') := by
      rw [first_byte h]
      cases rest with
      | nil => exact iff_of_false (by decide) nofun
      | cons c rest => exact (Option.some_inj (a := c)).symm
    rw [readBase, if_neg hnone]
    unfold radixOf
    rw [if_neg (not_not.mpr rfl)]
    by_cases hbase0 : base = 0
    · rw [if_pos hbase0, if_pos hbase0]
      by_cases hfirst : m p = chr '0'
      · rw [if_pos hfirst, if_pos (hzero.mp hfirst)]
        rfl
      · rw [if_neg hfirst, if_neg (mt hzero.mpr hfirst)]
        rfl
    · rw [if_neg hbase0, if_neg hbase0, Int.toNat_of_nonneg (by omega)]
      rfl
  · obtain ⟨c, rfl, hc⟩ := mem_hexPrefixes hmem
    rw [readBase, if_pos ⟨hallowed, h.1, h.2.2.1 ▸ hc⟩]
    rfl

/-- There were digits exactly if `any` is not 0. -/
theorem Reads.any_ne_zero_iff {ds : List ℕ} (h : Reads limit r ds a) : a.any ≠ 0 ↔ ds ≠ [] := by
  by_cases hsmall : Nat.ofDigits r ds.reverse ≤ limit
  · rw [(h.small hsmall).2]
    split_ifs with hnil
    · exact iff_of_false (not_not.mpr rfl) (not_not.mpr hnil)
    · exact iff_of_true (by decide) hnil
  · rw [h.large (Nat.lt_of_not_le hsmall)]
    refine iff_of_true (by decide) ?_
    rintro rfl
    exact hsmall (Nat.zero_le _)

/-- What `acc` is converted to. -/
def IntType.returned (t : IntType) (neg : Bool) (a : Accumulator) : ℤ :=
  t.ofAcc (if a.any < 0 then t.saturated neg
    else if t.negates && neg then wsub 64 0 a.acc
    else a.acc)

/-- **The body of the four functions**, on a scanned text. -/
theorem convert_scanned (ht : ∀ neg, t.limit neg < 2 ^ 64) (h : IsString m nptr (x.chars ++ more))
    (hend : nptr + (x.chars ++ more).length < 2 ^ 64) (hbase : base = 0 ∨ 2 ≤ base ∧ base ≤ 36)
    (hx : Scanned base x more) :
    ∃ a, Reads (t.limit (decide (x.sign = [chr '-']))) (x.radix base) (x.digits.filterMap digitWorth)
        a ∧
      convertText t m nptr base = some ⟨t.returned (decide (x.sign = [chr '-'])) a,
        if x.digits = [] then nptr else nptr + x.chars.length, false⟩ := by
  simp only [Subject.chars, List.append_assoc, List.length_append] at h hend
  have hsteps : x.spaces.length < addresses ∧ x.digits.length < addresses :=
    ⟨lt_addresses (by omega), lt_addresses (by omega)⟩
  have hzero : x.digits = [] → more.head? ≠ some (chr '0') := fun _ hhead =>
    hx.stop _ hhead (isDigit_zero (radixOf_range hbase _ _).1)
  have hradix : radixOf x.hex base (x.digits ++ more) = x.radix base := radixOf_append hzero
  have hrange := radixOf_range hbase x.hex x.digits
  have hvalid : ¬ ((x.radix base : ℤ) < 2 ∨ (x.radix base : ℤ) > 36) := by
    rw [Subject.radix]
    omega
  have hskip := skipSpaces_eq h hx.spaces hx.solid hsteps.1
  have hsign := readSign_eq h.drop hx.sign hx.unsigned
  have hbaseRead := readBase_eq h.drop.drop hbase hx.hex hx.plain
  obtain ⟨a, hloop, hreads⟩ := digitLoop_reads h.drop.drop.drop
    (ht (decide (x.sign = [chr '-']))) hx.digits hx.stop hsteps.2 (reads_nil _ _)
  rw [List.nil_append] at hreads
  have hany : a.any ≠ 0 ↔ x.digits ≠ [] := by
    rw [hreads.any_ne_zero_iff, not_iff_not]
    refine ⟨fun hnil => List.eq_nil_iff_forall_not_mem.mpr fun c hc => ?_, fun hnil => ?_⟩
    · obtain ⟨d, hd, -⟩ := hx.digits c hc
      exact absurd (hd.symm.trans (List.filterMap_eq_nil_iff.mp hnil c hc)) (Option.some_ne_none d)
    · rw [hnil, List.filterMap_nil]
  have hlen : nptr + x.spaces.length + x.sign.length + x.hex.length + x.digits.length =
      nptr + x.chars.length := by
    simp only [Subject.chars, List.length_append]
    omega
  refine ⟨a, hreads, ?_⟩
  rw [convertText, hskip, Option.bind_some]
  simp only [hsign, hbaseRead, hradix, if_neg hvalid, Int.toNat_natCast, hloop, Option.map_some]
  rw [hreads.exact, Nat.add_sub_cancel, hlen]
  by_cases hdigits : x.digits = []
  · rw [if_neg (mt hany.mp (not_not.mpr hdigits)), if_pos hdigits]
    rfl
  · rw [if_pos (hany.mpr hdigits), if_neg hdigits]
    rfl

/-! ### The value -/

/-- A number in the range of `long`, or the limit beyond which it is. -/
def clampLong (z : ℤ) : ℤ := max longMin (min longMax z)

theorem signed_limit (neg : Bool) : (signedType longMin longMax).limit neg < 2 ^ 64 := by
  cases neg <;> decide

theorem unsigned_limit (neg : Bool) : (unsignedType ulongMax).limit neg < 2 ^ 64 := by
  cases neg <;> decide

/-- What is below the limit is negated. -/
theorem toSigned_negated {n : ℕ} (h : n ≤ 2 ^ 63) : toSigned 64 (wsub 64 0 n) = clampLong (-n) := by
  have hmax : max longMin (min longMax (-n : ℤ)) = -n := by
    unfold longMin longMax
    omega
  unfold clampLong toSigned wsub wrap
  rw [hmax]
  split_ifs <;> omega

/-- What is not negated is kept. -/
theorem toSigned_kept {n : ℕ} (h : n ≤ 2 ^ 63 - 1) : toSigned 64 n = clampLong n := by
  have hmax : max longMin (min longMax (n : ℤ)) = n := by
    unfold longMin longMax
    omega
  unfold clampLong
  rw [hmax, toSigned_eq_self_iff]
  omega

/-- **The limits are exact**: `acc` is negated and clamped. -/
theorem signed_returned {neg : Bool} {ds : List ℕ}
    (h : Reads ((signedType longMin longMax).limit neg) r ds a) :
    (signedType longMin longMax).returned neg a =
      clampLong (if neg then -((Nat.ofDigits r ds.reverse : ℕ) : ℤ)
        else ((Nat.ofDigits r ds.reverse : ℕ) : ℤ)) := by
  have hsmall := h.small
  have hlarge := h.large
  generalize Nat.ofDigits r ds.reverse = n at hsmall hlarge ⊢
  have hlimit : (signedType longMin longMax).limit neg = if neg then 2 ^ 63 else 2 ^ 63 - 1 := by
    cases neg <;> decide
  rw [hlimit] at hsmall hlarge
  by_cases hle : n ≤ if neg then 2 ^ 63 else 2 ^ 63 - 1
  · obtain ⟨hacc, hany⟩ := hsmall hle
    have hnonneg : ¬ a.any < 0 := by
      rw [hany]
      split_ifs <;> decide
    rw [IntType.returned, if_neg hnonneg, hacc]
    cases neg with
    | true => exact toSigned_negated hle
    | false => exact toSigned_kept hle
  · have hneg : a.any < 0 := by
      rw [hlarge (Nat.lt_of_not_le hle)]
      decide
    rw [IntType.returned, if_pos hneg]
    cases neg with
    | true =>
      have hmin : (signedType longMin longMax).ofAcc ((signedType longMin longMax).saturated true) =
          longMin := by decide
      rw [hmin]
      rw [if_pos rfl] at hle ⊢
      unfold clampLong longMin longMax
      omega
    | false =>
      have hmax : (signedType longMin longMax).ofAcc ((signedType longMin longMax).saturated false) =
          longMax := by decide
      rw [hmax]
      rw [if_neg Bool.false_ne_true] at hle ⊢
      unfold clampLong longMin longMax
      omega

/-- **`strtol` and `strtoll`** return the longest number with which the text begins, or the limit
beyond which it is, and 0 if there is none; no product and no sum wraps around. -/
theorem strtol_saturates (h : IsString m nptr text) (hend : nptr + text.length < 2 ^ 64)
    (hbase : base = 0 ∨ 2 ≤ base ∧ base ≤ 36) :
    ∀ f ∈ [strtol, strtoll], ∃ result, f m nptr base = some result ∧ result.wrapped = false ∧
      (∀ x : Subject, x.Longest base text → result.value = clampLong (x.value base)) ∧
      ((¬ ∃ x : Subject, x.Valid base ∧ x.chars <+: text) → result.value = 0) := by
  obtain ⟨x, more, rfl, hx⟩ := exists_scanned hbase text
  obtain ⟨a, hreads, hconvert⟩ := convert_scanned signed_limit h hend hbase hx
  have hvalue : (signedType longMin longMax).returned (decide (x.sign = [chr '-'])) a =
      clampLong (x.value base) := by
    rw [signed_returned hreads, Subject.value]
    simp only [decide_eq_true_eq]
    rfl
  have hnone : x.digits = [] → x.value base = 0 := fun hdigits => by
    have hnumber : x.number base = 0 := by
      rw [Subject.number, hdigits]
      rfl
    rw [Subject.value, hnumber]
    split_ifs <;> rfl
  intro f hf
  have hboth : f = convertText (signedType longMin longMax) := by
    simp only [List.mem_cons, List.not_mem_nil, or_false] at hf
    rcases hf with rfl | rfl <;> rfl
  rw [hboth]
  refine ⟨_, hconvert, rfl, fun y hy => ?_, fun hnot => ?_⟩
  · obtain ⟨hsign, hnumber⟩ := hx.longest_number hbase hy
    rw [hvalue, Subject.value, Subject.value, hsign, hnumber]
  · by_cases hdigits : x.digits = []
    · rw [hvalue, hnone hdigits]
      rfl
    · exact absurd ⟨x, hx.valid hdigits, List.prefix_append ..⟩ hnot

/-- Two digits in base 16. -/
theorem strtol_saturates_hex :
    (IsString (fun a => (str " -0xff").getD (a - 8) 0) 8 (str " -0xff") ∧
      8 + (str " -0xff").length < 2 ^ 64) ∧
    ∀ f ∈ [strtol, strtoll], ∃ result,
      f (fun a => (str " -0xff").getD (a - 8) 0) 8 0 = some result ∧ result.wrapped = false ∧
      (∀ x : Subject, x.Longest 0 (str " -0xff") → result.value = clampLong (x.value 0)) ∧
      ((¬ ∃ x : Subject, x.Valid 0 ∧ x.chars <+: str " -0xff") → result.value = 0) := by
  have hstring : IsString (fun a => (str " -0xff").getD (a - 8) 0) 8 (str " -0xff") :=
    IsString.of_getD (by decide) (by decide)
  exact ⟨⟨hstring, by decide⟩, strtol_saturates hstring (by decide) (.inl rfl)⟩

/-! ### The end pointer -/

/-- The end pointer is behind the longest subject, and at the start of the text exactly if there is
no subject. -/
def EndsRight (base : ℤ) (text : Str) (nptr endptr : ℕ) : Prop :=
  (∀ x : Subject, x.Longest base text → endptr = nptr + x.chars.length) ∧
    (endptr = nptr ↔ ¬ ∃ x : Subject, x.Valid base ∧ x.chars <+: text)

/-- There is a hexadecimal prefix after the whitespace and the sign, and no digit behind it. -/
def BarePrefix (base : ℤ) (text : Str) : Prop :=
  (base = 0 ∨ base = 16) ∧ ∃ spaces sign hex rest, text = spaces ++ (sign ++ (hex ++ rest)) ∧
    (∀ c ∈ spaces, isspace c = true) ∧ sign ∈ signs ∧ hex ∈ hexPrefixes ∧
    ∀ c ∈ rest.head?, ¬ IsDigit 16 c

/-- It is scanned, without digits. -/
theorem BarePrefix.scanned (h : BarePrefix base text) :
    ∃ x more, text = x.chars ++ more ∧ Scanned base x more ∧ x.digits = [] ∧ x.hex ≠ [] := by
  obtain ⟨hallowed, spaces, sign, hex, rest, rfl, hspaces, hsign, hhex, hrest⟩ := h
  obtain ⟨c, rfl, hc⟩ := mem_hexPrefixes hhex
  refine ⟨⟨spaces, sign, [chr '0', c], []⟩, rest, by simp [Subject.chars], ?_, rfl,
    List.cons_ne_nil _ _⟩
  refine ⟨hspaces, ?_, hsign, ?_, .inr ⟨hallowed, hhex⟩,
    fun hnil => absurd hnil (List.cons_ne_nil _ _), fun _ hd => absurd hd List.not_mem_nil, hrest⟩
  · simp only [signs, List.mem_cons, List.not_mem_nil, or_false] at hsign
    intro d hd
    rcases hsign with rfl | rfl | rfl <;> rw [← Option.some.inj hd] <;> rfl
  · rintro rfl d hd
    rw [← Option.some.inj hd]
    decide

theorem length_pos_of_valid {x : Subject} (hx : x.Valid base) : 0 < x.chars.length := by
  have hpos := List.length_pos_iff.mpr hx.some
  simp only [Subject.chars, List.length_append]
  omega

/-- The end pointer that the code sets. -/
theorem endsRight_iff (hbase : base = 0 ∨ 2 ≤ base ∧ base ≤ 36) (hx : Scanned base x more) :
    EndsRight base (x.chars ++ more) nptr
        (if x.digits = [] then nptr else nptr + x.chars.length) ↔
      ¬ (x.digits = [] ∧ x.hex ≠ []) := by
  by_cases hdigits : x.digits = []
  · rw [if_pos hdigits]
    by_cases hhex : x.hex = []
    · have hnone := hx.not_valid hbase hdigits hhex
      refine iff_of_true ⟨fun y hy => ?_, iff_of_true rfl hnone⟩ fun h => h.2 hhex
      exact absurd ⟨y, hy.valid, hy.starts⟩ hnone
    · have hzero := (hx.bare hbase hdigits hhex).1
      have hpos := length_pos_of_valid hzero.valid
      refine iff_of_false (fun hends => ?_) (not_not.mpr ⟨hdigits, hhex⟩)
      have hend := hends.1 _ hzero
      omega
  · rw [if_neg hdigits]
    have hvalid := hx.valid hdigits
    have hpos := length_pos_of_valid hvalid
    refine iff_of_true ⟨fun y hy => by rw [(hx.longest hbase hdigits).2 y hy], ?_⟩
      fun h => hdigits h.1
    exact iff_of_false (by omega) (not_not.mpr ⟨x, hvalid, List.prefix_append ..⟩)

/-- **The end pointer** of all four functions is right exactly if the text does not begin with a
hexadecimal prefix without a digit behind it. -/
theorem endptr_iff (h : IsString m nptr text) (hend : nptr + text.length < 2 ^ 64)
    (hbase : base = 0 ∨ 2 ≤ base ∧ base ≤ 36) :
    ∀ f ∈ [strtol, strtoll, strtoul, strtoull], ∃ result, f m nptr base = some result ∧
      (EndsRight base text nptr result.endptr ↔ ¬ BarePrefix base text) := by
  have hconvert (t : IntType) (ht : ∀ neg, t.limit neg < 2 ^ 64) : ∃ result,
      convertText t m nptr base = some result ∧
        (EndsRight base text nptr result.endptr ↔ ¬ BarePrefix base text) := by
    by_cases hbare : BarePrefix base text
    · obtain ⟨x, more, rfl, hx, hdigits, hhex⟩ := hbare.scanned
      obtain ⟨a, -, hresult⟩ := convert_scanned ht h hend hbase hx
      refine ⟨_, hresult, iff_of_false ?_ (not_not.mpr hbare)⟩
      exact (endsRight_iff hbase hx).not.mpr (not_not.mpr ⟨hdigits, hhex⟩)
    · obtain ⟨x, more, rfl, hx⟩ := exists_scanned hbase text
      obtain ⟨a, -, hresult⟩ := convert_scanned ht h hend hbase hx
      refine ⟨_, hresult, iff_of_true ((endsRight_iff hbase hx).mpr ?_) hbare⟩
      rintro ⟨hdigits, hhex⟩
      obtain ⟨hallowed, hmem⟩ := hx.hex.resolve_left hhex
      have hstop := hx.stop
      rw [Subject.radix, radixOf, if_pos hhex] at hstop
      refine hbare ⟨hallowed, x.spaces, x.sign, x.hex, more, ?_, hx.spaces, hx.sign, hmem, hstop⟩
      simp [Subject.chars, hdigits]
  intro f hf
  simp only [List.mem_cons, List.not_mem_nil, or_false] at hf
  rcases hf with rfl | rfl | rfl | rfl
  · exact hconvert _ signed_limit
  · exact hconvert _ signed_limit
  · exact hconvert _ unsigned_limit
  · exact hconvert _ unsigned_limit

/-- A prefix with a digit. -/
theorem endptr_iff_hex :
    (IsString (fun a => (str "0x1").getD (a - 8) 0) 8 (str "0x1") ∧
      8 + (str "0x1").length < 2 ^ 64) ∧
    ∀ f ∈ [strtol, strtoll, strtoul, strtoull], ∃ result,
      f (fun a => (str "0x1").getD (a - 8) 0) 8 16 = some result ∧
      (EndsRight 16 (str "0x1") 8 result.endptr ↔ ¬ BarePrefix 16 (str "0x1")) := by
  have hstring : IsString (fun a => (str "0x1").getD (a - 8) 0) 8 (str "0x1") :=
    IsString.of_getD (by decide) (by decide)
  exact ⟨⟨hstring, by decide⟩, endptr_iff hstring (by decide) (.inr (by decide))⟩

/-- "0xg" in base 16: the number is the zero, but the end pointer stays at the start. -/
theorem bare_prefix_end : ∃ result,
    strtol (fun a => (str "0xg").getD (a - 8) 0) 8 16 = some result ∧ result.endptr = 8 ∧
      ¬ EndsRight 16 (str "0xg") 8 result.endptr := by
  have hstring : IsString (fun a => (str "0xg").getD (a - 8) 0) 8 (str "0xg") :=
    IsString.of_getD (by decide) (by decide)
  have hbare : BarePrefix 16 (str "0xg") := by
    refine ⟨.inr rfl, [], [], str "0x", str "g", rfl, nofun, by decide, by decide, fun c hc => ?_⟩
    rw [← Option.some.inj hc]
    rintro ⟨d, hd, hlt⟩
    cases hd
    exact absurd hlt (by decide)
  have hbase : (16 : ℤ) = 0 ∨ 2 ≤ (16 : ℤ) ∧ (16 : ℤ) ≤ 36 := .inr (by decide)
  generalize (fun a => (str "0xg").getD (a - 8) 0) = m at hstring ⊢
  obtain ⟨x, more, htext, hx, hdigits, hhex⟩ := hbare.scanned
  rw [htext] at hstring
  obtain ⟨a, -, hresult⟩ := convert_scanned signed_limit hstring (by rw [← htext]; decide) hbase hx
  refine ⟨_, hresult, if_pos hdigits, ?_⟩
  rw [htext]
  exact (endsRight_iff hbase hx).not.mpr (not_not.mpr ⟨hdigits, hhex⟩)

end

end PrismaticOS.Libc
