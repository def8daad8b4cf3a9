import PrismaticOS.Library.Memory
import PrismaticOS.Library.Split
import PrismaticOS.Library.Words

/-!
# Strings

`strcmp`, `strcspn`, `strtok` and `strtok_r` of `libc/src/string/strlen.c`. `strtok` takes the
tokens of a string off one by one: it keeps a pointer to what is left of the string and writes a
zero over the delimiter after each token.

## The model

Memory has a byte at every address, and a string is in it up to its final zero (`IsString`). The
first argument of `strcmp` and the delimiters are lists of bytes. The pointer that `strtok` keeps is
passed from one call to the next; `NULL` is 0. A loop is `none` if it needs more turns than there
are addresses.

## What is proved

* `strcmp_eq_zero_iff` — two strings are equal.
* `strcspn_eq` — the bytes before the first delimiter.
* `strtokR_token`, `strtokR_delims`, `strtokR_done` — one call of `strtok_r`.
* `strtok_ahead` — a call returns the next of the tokens and leaves the others, and `NULL` if there
  are none.
-/

namespace PrismaticOS.Libc

open PrismaticOS.Library

/-! ### The functions -/

/-- `strcmp`. -/
def strcmp (m : Mem) : List UInt8 → ℕ → ℤ
  | [], s2 => 0 - (m s2).toNat
  | c :: s1, s2 =>
    if c ≠ 0 ∧ m s2 ≠ 0 ∧ c = m s2 then strcmp m s1 (s2 + 1) else c.toNat - (m s2).toNat

/-- The loop of `strcspn`. -/
def strcspnLoop (m : Mem) (reject : List UInt8) : ℕ → ℕ → ℕ → Option ℕ
  | 0, _, _ => none
  | steps + 1, s, count =>
    if m s = 0 then some count
    else if m s ∈ reject then some count
    else strcspnLoop m reject steps (s + 1) (count + 1)

/-- `strcspn`. -/
def strcspn (m : Mem) (s : ℕ) (reject : List UInt8) : Option ℕ := strcspnLoop m reject addresses s 0

/-- The loop of `strtok_r` that skips the delimiters. -/
def skipDelims (m : Mem) (delim : List UInt8) : ℕ → ℕ → Option ℕ
  | 0, _ => none
  | steps + 1, token =>
    if m token = 0 then some token
    else
      (strcspn m token delim).bind fun n =>
        if n = 0 then skipDelims m delim steps (token + 1) else some token

/-- What a call of `strtok_r` leaves: the memory, the pointer that it keeps, and the token. -/
structure Tokenized where
  /-- The memory. -/
  mem : Mem
  /-- `*saveptr`. -/
  saveptr : ℕ
  /-- The token that is returned, or `NULL`. -/
  token : ℕ

/-- `strtok_r`. -/
def strtokR (m : Mem) (saveptr str : ℕ) (delim : List UInt8) : Option Tokenized :=
  let saveptr := if str ≠ 0 then str else saveptr
  if saveptr = 0 ∨ m saveptr = 0 then some ⟨m, saveptr, 0⟩
  else
    (skipDelims m delim addresses saveptr).bind fun token =>
      if m token = 0 then some ⟨m, 0, 0⟩
      else
        (strcspn m token delim).map fun n =>
          let stop := token + n
          if m stop ≠ 0 then ⟨Function.update m stop 0, stop + 1, token⟩ else ⟨m, 0, token⟩

/-- `strtok`; the pointer that it keeps is `strtok_last`. -/
def strtok (m : Mem) (strtokLast str : ℕ) (delim : List UInt8) : Option Tokenized :=
  strtokR m strtokLast str delim

/-! ### Strings in memory -/

/-- The string is in memory at `p`, up to its final zero. -/
def IsString (m : Mem) : ℕ → List UInt8 → Prop
  | p, [] => m p = 0
  | p, c :: cs => m p = c ∧ c ≠ 0 ∧ IsString m (p + 1) cs

variable {m m' : Mem} {p saveptr : ℕ} {sep c : UInt8} {delim text token more : List UInt8}

namespace IsString

theorem congr (h : IsString m p text)
    (hsame : ∀ x, p ≤ x → x ≤ p + text.length → m' x = m x) : IsString m' p text := by
  induction text generalizing p with
  | nil => exact (hsame p le_rfl le_rfl).trans h
  | cons c text ih =>
    obtain ⟨hc, h0, h⟩ := h
    simp only [List.length_cons] at hsame
    exact ⟨(hsame p le_rfl (by omega)).trans hc, h0,
      ih h fun x h₁ h₂ => hsame x (by omega) (by omega)⟩

theorem of_getD (h : ∀ i ≤ text.length, m (p + i) = text.getD i 0) (h0 : 0 ∉ text) :
    IsString m p text := by
  induction text generalizing p with
  | nil => exact h 0 le_rfl
  | cons c text ih =>
    obtain ⟨hc, h0⟩ := not_or.mp (List.mem_cons.not.mp h0)
    refine ⟨h 0 (Nat.zero_le _), Ne.symm hc, ih (fun i hi => ?_) h0⟩
    have hnext := h (i + 1) (Nat.succ_le_succ hi)
    rwa [← Nat.add_assoc, Nat.add_right_comm] at hnext

theorem zero_notMem (h : IsString m p text) : 0 ∉ text := by
  induction text generalizing p with
  | nil => exact List.not_mem_nil
  | cons c text ih => exact List.mem_cons.not.mpr (not_or.mpr ⟨Ne.symm h.2.1, ih h.2.2⟩)

/-- A byte of a string, or its final zero. -/
theorem byte (h : IsString m p text) {i : ℕ} (hi : i ≤ text.length) :
    m (p + i) = text.getD i 0 := by
  induction text generalizing p i with
  | nil => rwa [Nat.le_zero.mp hi]
  | cons c text ih =>
    cases i with
    | zero => exact h.1
    | succ i =>
      have hnext := ih h.2.2 (Nat.le_of_succ_le_succ hi)
      rwa [Nat.add_right_comm, Nat.add_assoc] at hnext

/-- The end of a string. -/
theorem drop (h : IsString m p (token ++ more)) : IsString m (p + token.length) more := by
  induction token generalizing p with
  | nil => exact h
  | cons c token ih =>
    have hrest := ih h.2.2
    rwa [List.length_cons, show p + (token.length + 1) = p + 1 + token.length by omega]

theorem suffix (h : IsString m p text) {k : ℕ} (hk : k ≤ text.length) :
    IsString m (p + k) (text.drop k) := by
  rw [← List.take_append_drop k text] at h
  have hrest := h.drop
  rwa [List.length_take_of_le hk] at hrest

/-- A zero written into a string ends it. -/
theorem cut (h : IsString m p (token ++ more)) :
    IsString (Function.update m (p + token.length) 0) p token := by
  induction token generalizing p with
  | nil => exact Function.update_self _ _ _
  | cons c token ih =>
    obtain ⟨hc, h0, h⟩ := h
    refine ⟨?_, h0, ?_⟩
    · rw [Function.update_of_ne (by simp), hc]
    · have hrest := ih h
      rwa [List.length_cons, show p + (token.length + 1) = p + 1 + token.length by omega]

/-- The first byte is zero where the string ends. -/
theorem head_eq_zero_iff (h : IsString m p text) : m p = 0 ↔ text = [] := by
  cases text with
  | nil => exact ⟨fun _ => rfl, fun _ => h⟩
  | cons c text => exact ⟨fun h0 => absurd (h.1.symm.trans h0) h.2.1, nofun⟩

end IsString

/-! ### One call -/

/-- **`strcmp`** of two strings. -/
theorem strcmp_eq_zero_iff {name : List UInt8} (h : IsString m p text) (hname : 0 ∉ name) :
    strcmp m name p = 0 ↔ name = text := by
  induction name generalizing p text with
  | nil =>
    have hbyte : m p = 0 ↔ (m p).toNat = 0 := by rw [← UInt8.toNat_inj]; rfl
    rw [strcmp, eq_comm (a := []), ← h.head_eq_zero_iff, hbyte]
    omega
  | cons c name ih =>
    obtain ⟨hc, hname⟩ := not_or.mp (List.mem_cons.not.mp hname)
    rw [strcmp]
    by_cases hsame : c ≠ 0 ∧ m p ≠ 0 ∧ c = m p
    · rw [if_pos hsame]
      cases text with
      | nil => exact absurd h hsame.2.1
      | cons d text =>
        obtain ⟨hd, -, h⟩ := h
        rw [ih h hname, List.cons_eq_cons, ← hd]
        exact ⟨fun htext => ⟨hsame.2.2, htext⟩, fun htext => htext.2⟩
    · rw [if_neg hsame]
      have hne : c ≠ m p := by
        rintro rfl
        exact hsame ⟨Ne.symm hc, Ne.symm hc, rfl⟩
      have hdiff : c.toNat ≠ (m p).toNat := fun heq => hne (UInt8.toNat_inj.mp heq)
      refine ⟨fun hzero => absurd hzero (by omega), ?_⟩
      rintro rfl
      exact absurd h.1.symm hne

/-- **`strcspn`** counts the bytes before the first delimiter. -/
theorem strcspnLoop_eq (h : IsString m p (token ++ more)) (htoken : ∀ c ∈ token, c ∉ delim)
    (hmore : ∀ c ∈ more.head?, c ∈ delim) {steps count : ℕ} (hsteps : token.length < steps) :
    strcspnLoop m delim steps p count = some (count + token.length) := by
  induction token generalizing p steps count with
  | nil =>
    obtain ⟨n, rfl⟩ := Nat.exists_eq_add_one.mpr hsteps
    rw [strcspnLoop]
    cases more with
    | nil => exact if_pos h
    | cons c more =>
      rw [if_neg fun h0 => h.2.1 (h.1.symm.trans h0), if_pos (by rw [h.1]; exact hmore c rfl)]
      rfl
  | cons c token ih =>
    obtain ⟨n, rfl⟩ := Nat.exists_eq_add_one.mpr (Nat.zero_lt_of_lt hsteps)
    obtain ⟨hc, h0, h⟩ := h
    obtain ⟨hne, htoken⟩ := List.forall_mem_cons.mp htoken
    rw [strcspnLoop, hc, if_neg h0, if_neg hne, ih h htoken (Nat.lt_of_succ_lt_succ hsteps),
      List.length_cons]
    congr 1
    omega

theorem strcspn_eq (h : IsString m p (token ++ more)) (htoken : ∀ c ∈ token, c ∉ delim)
    (hmore : ∀ c ∈ more.head?, c ∈ delim) (hlen : token.length < addresses) :
    strcspn m p delim = some token.length := by
  rw [strcspn, strcspnLoop_eq h htoken hmore hlen, Nat.zero_add]

/-- The delimiters in front of the rest are skipped. -/
theorem skipDelims_eq {gap : List UInt8} (h : IsString m p (gap ++ text))
    (hgap : ∀ c ∈ gap, c ∈ delim)
    (htext : text = [] ∨ ∃ token more, text = token ++ more ∧ token ≠ [] ∧ (∀ c ∈ token, c ∉ delim) ∧
      (∀ c ∈ more.head?, c ∈ delim) ∧ token.length < addresses)
    {steps : ℕ} (hsteps : gap.length < steps) :
    skipDelims m delim steps p = some (p + gap.length) := by
  induction gap generalizing p steps with
  | nil =>
    obtain ⟨k, rfl⟩ := Nat.exists_eq_add_one.mpr hsteps
    rw [skipDelims]
    rw [List.nil_append] at h
    rcases htext with rfl | ⟨token, more, rfl, hne, hnotin, hmore, hlen⟩
    · exact if_pos (h.head_eq_zero_iff.mpr rfl)
    · have hfirst : ¬ m p = 0 := by
        rw [h.head_eq_zero_iff]
        simp [hne]
      rw [if_neg hfirst, strcspn_eq h hnotin hmore hlen, Option.bind_some,
        if_neg (by simpa using hne)]
      rfl
  | cons c gap ih =>
    obtain ⟨k, rfl⟩ := Nat.exists_eq_add_one.mpr (Nat.zero_lt_of_lt hsteps)
    obtain ⟨hc, hgap⟩ := List.forall_mem_cons.mp hgap
    have hzero : strcspn m p delim = some ([] : List UInt8).length :=
      strcspn_eq h nofun (fun d hd => by rwa [← Option.some.inj hd]) addresses_pos
    rw [skipDelims, if_neg fun h0 => h.2.1 (h.1.symm.trans h0), hzero, Option.bind_some,
      if_pos List.length_nil, ih h.2.2 hgap (Nat.lt_of_succ_lt_succ hsteps), List.length_cons]
    congr 1
    omega

/-- Nothing is left. -/
theorem strtokR_done (h : saveptr = 0 ∨ m saveptr = 0) :
    strtokR m saveptr 0 delim = some ⟨m, saveptr, 0⟩ := by
  unfold strtokR
  rw [if_neg (not_not.mpr rfl), if_pos h]

/-- Delimiters are left. -/
theorem strtokR_delims (h0 : saveptr ≠ 0) (h : IsString m saveptr text)
    (htext : ∀ c ∈ text, c ∈ delim) (hlen : text.length < addresses) :
    ∃ q, strtokR m saveptr 0 delim = some ⟨m, q, 0⟩ ∧ (q = 0 ∨ m q = 0) := by
  by_cases hfirst : m saveptr = 0
  · exact ⟨saveptr, strtokR_done (.inr hfirst), .inr hfirst⟩
  · rw [← List.append_nil text] at h
    have hend : m (saveptr + text.length) = 0 := h.drop
    unfold strtokR
    rw [if_neg (not_not.mpr rfl), if_neg (not_or.mpr ⟨h0, hfirst⟩),
      skipDelims_eq h htext (.inl rfl) hlen, Option.bind_some, if_pos hend]
    exact ⟨0, rfl, .inl rfl⟩

/-- **A token is left**: it is returned, and a zero is written behind it. -/
theorem strtokR_token {gap : List UInt8} (h0 : saveptr ≠ 0)
    (h : IsString m saveptr (gap ++ (token ++ more))) (hgap : ∀ c ∈ gap, c ∈ delim)
    (hne : token ≠ []) (htoken : ∀ c ∈ token, c ∉ delim) (hmore : ∀ c ∈ more.head?, c ∈ delim)
    (hlen : (gap ++ (token ++ more)).length < addresses) :
    strtokR m saveptr 0 delim = some
      ⟨Function.update m (saveptr + gap.length + token.length) 0,
        if more = [] then 0 else saveptr + gap.length + token.length + 1, saveptr + gap.length⟩ := by
  simp only [List.length_append] at hlen
  have hfirst : ¬ m saveptr = 0 := by
    rw [h.head_eq_zero_iff]
    simp [hne]
  have hskip := skipDelims_eq h hgap (.inr ⟨token, more, rfl, hne, htoken, hmore, by omega⟩)
    (show gap.length < addresses by omega)
  have hstart : ¬ m (saveptr + gap.length) = 0 := by
    rw [h.drop.head_eq_zero_iff]
    simp [hne]
  have hstop : m (saveptr + gap.length + token.length) = 0 ↔ more = [] :=
    h.drop.drop.head_eq_zero_iff
  unfold strtokR
  rw [if_neg (not_not.mpr rfl), if_neg (not_or.mpr ⟨h0, hfirst⟩), hskip, Option.bind_some,
    if_neg hstart, strcspn_eq h.drop htoken hmore (by omega), Option.map_some]
  by_cases hlast : more = []
  · -- there is a zero already
    have hzero := hstop.mpr hlast
    simp only [ne_eq, hzero, not_true_eq_false, if_false, hlast, if_true]
    rw [Function.update_eq_self_iff.mpr hzero.symm]
  · simp only [ne_eq, hstop, hlast, not_false_eq_true, if_true, if_false]

/-- The tokens that are left for the next calls of `strtok`. -/
def Left (sep : UInt8) (m : Mem) (strtokLast : ℕ) (names : List (List UInt8)) : Prop :=
  strtokLast = 0 ∧ names = [] ∨
    ∃ rest, strtokLast ≠ 0 ∧ IsString m strtokLast rest ∧ rest.length < addresses ∧
      tokens sep rest = names

/-- A string that `strtok` is given is what is left. -/
theorem strtok_start (m : Mem) (last : ℕ) {str : ℕ} (hstr : str ≠ 0) (delim : List UInt8) :
    strtok m last str delim = strtok m str 0 delim := by
  unfold strtok strtokR
  rw [if_pos hstr, if_neg (not_not.mpr rfl)]

variable {strtokLast : ℕ} {names : List (List UInt8)}

/-- The token that was returned and those that are left are these. -/
def Ahead (sep : UInt8) (t : Tokenized) : List (List UInt8) → Prop
  | [] => t.token = 0
  | token :: names =>
    t.token ≠ 0 ∧ IsString t.mem t.token token ∧ token ≠ [] ∧ Left sep t.mem t.saveptr names

/-- No token is left. -/
theorem strtok_end (h : Left sep m strtokLast []) :
    ∃ t, strtok m strtokLast 0 [sep] = some t ∧ Ahead sep t [] := by
  rcases h with ⟨rfl, -⟩ | ⟨rest, h0, hrest, hlen, hnone⟩
  · exact ⟨_, strtokR_done (.inl rfl), rfl⟩
  rcases tokens_cases sep rest with ⟨-, hall⟩ | ⟨n, token, more, -, -, -, -, hsome⟩
  · have hdelims : ∀ c ∈ rest, c ∈ [sep] := fun c hc => by
      rw [hall] at hc
      exact List.mem_singleton.mpr (List.eq_of_mem_replicate hc)
    obtain ⟨q, hq, -⟩ := strtokR_delims h0 hrest hdelims hlen
    exact ⟨_, hq, rfl⟩
  · rw [hnone] at hsome
    cases hsome

/-- A token is left. -/
theorem strtok_token (h : Left sep m strtokLast (token :: names)) :
    ∃ t, strtok m strtokLast 0 [sep] = some t ∧ Ahead sep t (token :: names) := by
  rcases h with ⟨-, hnil⟩ | ⟨rest, h0, hrest, hlen, hnames⟩
  · cases hnil
  rcases tokens_cases sep rest with ⟨hnone, -⟩ | ⟨n, token', more, rfl, hne, hnotin, hmore, hsome⟩
  · rw [hnames] at hnone
    cases hnone
  obtain ⟨rfl, rfl⟩ := List.cons_eq_cons.mp (hnames.symm.trans hsome)
  have hgap : ∀ c ∈ List.replicate n sep, c ∈ [sep] := fun c hc =>
    List.mem_singleton.mpr (List.eq_of_mem_replicate hc)
  have htoken : ∀ c ∈ token, c ∉ [sep] := fun c hc hmem =>
    hnotin (List.mem_singleton.mp hmem ▸ hc)
  have hnext : ∀ c ∈ more.head?, c ∈ [sep] := fun c hc => by
    rcases hmore with rfl | hhead
    · cases hc
    · rw [Option.mem_def, hhead] at hc
      exact List.mem_singleton.mpr (Option.some.inj hc).symm
  refine ⟨_, strtokR_token h0 hrest hgap hne htoken hnext hlen, ?_⟩
  have hstring := hrest.drop
  refine ⟨by simp only; omega, hstring.cut, hne, ?_⟩
  rcases hmore with rfl | hmore
  · exact .inl ⟨rfl, tokens_nil⟩
  · obtain ⟨rest, rfl⟩ : ∃ rest, more = sep :: rest := by
      cases more with
      | nil => cases hmore
      | cons c rest => exact ⟨rest, by rw [Option.some.inj hmore]⟩
    obtain ⟨-, -, hrest'⟩ := hstring.drop
    simp only [List.length_append, List.length_cons] at hlen
    simp only [List.cons_ne_nil, if_false]
    refine .inr ⟨rest, Nat.succ_ne_zero _, ?_, by omega, (tokens_cons_sep rest).symm⟩
    exact hrest'.congr fun x hx _ => Function.update_of_ne (by omega) _ _

/-- **`strtok`** returns the next token, as a string that is in memory now, and leaves the
others. -/
theorem strtok_ahead (h : Left sep m strtokLast names) :
    ∃ t, strtok m strtokLast 0 [sep] = some t ∧ Ahead sep t names := by
  cases names with
  | nil => exact strtok_end h
  | cons token names => exact strtok_token h

end PrismaticOS.Libc
