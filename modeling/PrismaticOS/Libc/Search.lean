import PrismaticOS.Libc.Strings
import PrismaticOS.Libc.Strlen
import PrismaticOS.Library.Positions

/-!
# Searching in strings

`strncmp`, `strchr`, `strrchr` and `strstr` of `libc/src/string/strlen.c`.

## The model

`char` is signed: a byte that is compared with an `unsigned char` is a number from -128 to 127. A
search that needs more turns than there are addresses is `none`.

## What is proved

* `strncmp_eq_zero_iff` — with the length of a string, `strncmp` tests whether the other one begins
  with it.
* `findLoop_eq` — a search stops at the first position where its test is met.
* `strstr_eq` — `strstr` returns the first occurrence.
* `strchr_strrchr_iff` — the exact condition for `strchr` and `strrchr` to return the first and the
  last position.
-/

namespace PrismaticOS.Libc

open PrismaticOS.Library

/-! ### The functions -/

/-- The loop of `strncmp`: both pointers and `n` after it. -/
def strncmpLoop (m : Mem) : ℕ → ℕ → ℕ → ℕ × ℕ × ℕ
  | 0, s1, s2 => (s1, s2, wsub 64 0 1)
  | n + 1, s1, s2 =>
    if m s1 ≠ 0 ∧ m s2 ≠ 0 ∧ m s1 = m s2 then strncmpLoop m n (s1 + 1) (s2 + 1) else (s1, s2, n)

/-- `strncmp`. -/
def strncmp (m : Mem) (s1 s2 n : ℕ) : ℤ :=
  let ended := strncmpLoop m n s1 s2
  if ended.2.2 = 2 ^ 64 - 1 then 0 else (m ended.1).toNat - (m ended.2.1).toNat

/-- `while (*s) { if (..) return s; s++; } return NULL;` -/
def findLoop (m : Mem) (found : ℕ → Option Bool) : ℕ → ℕ → Option ℕ
  | 0, _ => none
  | steps + 1, s =>
    if m s = 0 then some 0
    else (found s).bind fun hit => if hit then some s else findLoop m found steps (s + 1)

/-- `strstr`. -/
def strstr (m : Mem) (haystack needle : ℕ) : Option ℕ :=
  if m needle = 0 then some haystack
  else
    (strlen m needle).bind fun r =>
      findLoop m
        (fun h => some (decide (m h = m needle ∧ strncmp m h needle r.length = 0)))
        addresses haystack

/-- `*s == ch`, with a signed `char` on the left and an `unsigned char` on the right. -/
def sameChar (m : Mem) (s : ℕ) (ch : UInt8) : Bool := decide ((m s).toInt8.toInt = ch.toNat)

/-- `strchr`. -/
def strchr (m : Mem) (s : ℕ) (c : Int32) : Option ℕ :=
  findLoop m (fun s => some (sameChar m s c.toUInt32.toUInt8)) addresses s

/-- The loop of `strrchr`. -/
def lastLoop (m : Mem) (ch : UInt8) : ℕ → ℕ → ℕ → Option ℕ
  | 0, _, _ => none
  | steps + 1, s, last =>
    if m s = 0 then some last
    else lastLoop m ch steps (s + 1) (if sameChar m s ch then s else last)

/-- `strrchr`. -/
def strrchr (m : Mem) (s : ℕ) (c : Int32) : Option ℕ :=
  lastLoop m c.toUInt32.toUInt8 addresses s 0

section
variable {m : Mem} {p q haystack needle : ℕ} {text pat : List UInt8} {positions : Set ℕ}

/-! ### Searches -/

/-- **A search** returns the first position where the test is met. -/
theorem findLoop_eq {found : ℕ → Option Bool} {steps : ℕ} (h : IsString m p text) (hp : p ≠ 0)
    (hsteps : text.length < steps) (hlen : ∀ k ∈ positions, k < text.length)
    (hfound : ∀ k < text.length, ∃ hit, found (p + k) = some hit ∧ (hit = true ↔ k ∈ positions)) :
    ∃ r, findLoop m found steps p = some r ∧ PointsTo IsLeast positions p r := by
  induction text generalizing p steps positions with
  | nil =>
    obtain ⟨steps, rfl⟩ := Nat.exists_eq_add_one.mpr hsteps
    have hempty : positions = ∅ :=
      Set.eq_empty_of_forall_notMem fun k hk => Nat.not_lt_zero k (hlen k hk)
    exact ⟨0, if_pos h, pointsTo_empty (fun _ hk => hk.1) hempty⟩
  | cons c text ih =>
    obtain ⟨steps, rfl⟩ := Nat.exists_eq_add_one.mpr (Nat.zero_lt_of_lt hsteps)
    simp only [List.length_cons] at hsteps hlen hfound
    obtain ⟨hit, hhit, hiff⟩ := hfound 0 (Nat.succ_pos _)
    rw [Nat.add_zero] at hhit
    have hbyte : ¬ m p = 0 := fun h0 => h.2.1 (h.1.symm.trans h0)
    rw [findLoop, if_neg hbyte, hhit, Option.bind_some]
    by_cases h0 : 0 ∈ positions
    · rw [if_pos (hiff.mpr h0)]
      exact ⟨p, rfl, pointsTo_least ⟨h0, fun k _ => Nat.zero_le k⟩ hp⟩
    · rw [if_neg (mt hiff.mp h0)]
      have hlen' : ∀ k ∈ {k | k + 1 ∈ positions}, k < text.length := fun k hk =>
        Nat.lt_of_succ_lt_succ (hlen _ hk)
      obtain ⟨r, hr, hpoints⟩ := ih h.2.2 (Nat.succ_ne_zero p) (Nat.lt_of_succ_lt_succ hsteps) hlen'
        (fun k hk => by
          rw [Nat.add_assoc, Nat.add_comm 1]
          exact hfound (k + 1) (Nat.succ_lt_succ hk))
      exact ⟨r, hr, pointsTo_succ hpoints h0⟩

/-! ### `strstr` -/

/-- One turn of the loop of `strncmp`. -/
theorem strncmp_succ (m : Mem) (s1 s2 n : ℕ) : strncmp m s1 s2 (n + 1) =
    if m s1 ≠ 0 ∧ m s2 ≠ 0 ∧ m s1 = m s2 then strncmp m (s1 + 1) (s2 + 1) n
    else if n = 2 ^ 64 - 1 then 0 else (m s1).toNat - (m s2).toNat := by
  simp only [strncmp, strncmpLoop]
  split_ifs <;> rfl

/-- **`strncmp`** with the length of a string: `n` wraps around exactly if the other one begins with
it. -/
theorem strncmp_eq_zero_iff (h : IsString m p text) (hpat : IsString m q pat)
    (hlen : pat.length < 2 ^ 64) : strncmp m p q pat.length = 0 ↔ pat <+: text := by
  induction pat generalizing p q text with
  | nil => exact iff_of_true rfl List.nil_prefix
  | cons c pat ih =>
    obtain ⟨hc, hc0, hpat⟩ := hpat
    rw [List.length_cons] at hlen ⊢
    have hleft : pat.length ≠ 2 ^ 64 - 1 := by omega
    have hpos : c.toNat ≠ 0 := fun h0 => hc0 (UInt8.toNat_inj.mp h0)
    rw [strncmp_succ, hc]
    cases text with
    | nil =>
      have hzero : m p = 0 := h
      have hstop : ¬ (m p ≠ 0 ∧ c ≠ 0 ∧ m p = c) := fun hne => hne.1 hzero
      rw [if_neg hstop, if_neg hleft, hzero, UInt8.toNat_zero]
      refine iff_of_false (by omega) fun hstart => ?_
      cases List.prefix_nil.mp hstart
    | cons d text =>
      obtain ⟨hd, hd0, h⟩ := h
      rw [hd, List.cons_prefix_cons]
      by_cases hsame : d = c
      · rw [if_pos ⟨hd0, hc0, hsame⟩, ih h hpat (by omega)]
        exact ⟨fun hstart => ⟨hsame.symm, hstart⟩, fun hstart => hstart.2⟩
      · have hdiff : d.toNat ≠ c.toNat := fun heq => hsame (UInt8.toNat_inj.mp heq)
        rw [if_neg fun hne => hsame hne.2.2, if_neg hleft]
        exact iff_of_false (by omega) fun hstart => hsame hstart.1.symm

/-- A string ends at the first zero byte. -/
theorem IsString.isLeast (h : IsString m p text) : IsLeast {i | m (p + i) = 0} text.length := by
  refine ⟨?_, fun i hi => ?_⟩
  · have hend := h.suffix le_rfl
    rwa [List.drop_length] at hend
  · by_contra hlt
    have hbyte := h.suffix (Nat.le_of_not_le hlt)
    rw [List.drop_eq_getElem_cons (Nat.lt_of_not_le hlt)] at hbyte
    exact hbyte.2.1 (hbyte.1.symm.trans hi)

/-- A text that is not empty occurs where there are bytes. -/
theorem occurrence_lt (hpat : pat ≠ []) : ∀ k ∈ {k | pat <+: text.drop k}, k < text.length := by
  intro k hk
  by_contra hlt
  rw [Set.mem_ofPred_eq, List.drop_eq_nil_of_le (Nat.le_of_not_lt hlt)] at hk
  exact hpat (List.prefix_nil.mp hk)

/-- The empty text occurs at the start. -/
theorem occurrence_nil : IsLeast {k | [] <+: text.drop k} 0 :=
  ⟨List.nil_prefix, fun k _ => Nat.zero_le k⟩

/-- **`strstr`** returns the first occurrence. -/
theorem strstr_eq (h : IsString m haystack text) (hneedle : IsString m needle pat)
    (h0 : haystack ≠ 0) (hend : haystack + text.length < 2 ^ 64)
    (hend' : needle + pat.length < 2 ^ 64) :
    ∃ r, strstr m haystack needle = some r ∧
      PointsTo IsLeast {k | pat <+: text.drop k} haystack r := by
  rw [strstr]
  cases pat with
  | nil =>
    have hzero : m needle = 0 := hneedle
    rw [if_pos hzero]
    exact ⟨_, rfl, pointsTo_least occurrence_nil h0⟩
  | cons c pat =>
    have hbyte : ¬ m needle = 0 := fun hzero => hneedle.2.1 (hneedle.1.symm.trans hzero)
    have hsteps : text.length < addresses := lt_addresses (by omega)
    rw [if_neg hbyte, strlen_eq hneedle.isLeast hend' rfl, Option.bind_some]
    refine findLoop_eq h h0 hsteps (occurrence_lt (List.cons_ne_nil c pat)) fun k hk => ⟨_, rfl, ?_⟩
    rw [decide_eq_true_eq, strncmp_eq_zero_iff (h.suffix hk.le) hneedle (by omega)]
    refine and_iff_right_of_imp fun hstart => ?_
    obtain ⟨rest, hrest⟩ := hstart
    have hfirst := h.suffix hk.le
    rw [← hrest] at hfirst
    exact hfirst.1.trans hneedle.1.symm

/-! ### `strchr` and `strrchr` -/

variable {s r : ℕ} {ch : UInt8}

/-- A negative `char` is no `unsigned char`. -/
theorem sameChar_iff (m : Mem) (s : ℕ) (ch : UInt8) :
    sameChar m s ch = true ↔ m s = ch ∧ ch.toNat < 128 := by
  have hint : (m s).toInt8.toInt = ((m s).toNat : ℤ).bmod (2 ^ 8) :=
    BitVec.toInt_eq_toNat_bmod (m s).toBitVec
  have hlt := (m s).toNat_lt
  have hlt' := ch.toNat_lt
  rw [sameChar, decide_eq_true_eq, hint, ← UInt8.toNat_inj, Int.bmod_def]
  split_ifs <;> omega

/-- The positions where the search finds the character. -/
def foundAt (ch : UInt8) (text : List UInt8) : Set ℕ := {k | text[k]? = some ch ∧ ch.toNat < 128}

/-- The positions of the character, the terminator being one. -/
def occursAt (ch : UInt8) (text : List UInt8) : Set ℕ := {k | (text ++ [0])[k]? = some ch}

theorem strchr_eq (h : IsString m s text) (h0 : s ≠ 0) (hend : s + text.length < 2 ^ 64)
    (c : Int32) : ∃ r, strchr m s c = some r ∧
      PointsTo IsLeast (foundAt c.toUInt32.toUInt8 text) s r := by
  have hsteps : text.length < addresses := lt_addresses (by omega)
  refine findLoop_eq h h0 hsteps (fun k hk => ?_) fun k hk => ⟨_, rfl, ?_⟩
  · exact (List.getElem?_eq_some_iff.mp hk.1).1
  · have hbyte := h.suffix hk.le
    rw [List.drop_eq_getElem_cons hk] at hbyte
    rw [sameChar_iff, hbyte.1, foundAt, Set.mem_ofPred_eq, List.getElem?_eq_getElem hk,
      Option.some_inj]

/-- The loop of `strrchr`. -/
theorem lastLoop_eq {steps last : ℕ} (h : IsString m s text) (hsteps : text.length < steps) :
    ∃ r, lastLoop m ch steps s last = some r ∧
      ((∃ k, IsGreatest (foundAt ch text) k ∧ r = s + k) ∨ foundAt ch text = ∅ ∧ r = last) := by
  induction text generalizing s steps last with
  | nil =>
    obtain ⟨steps, rfl⟩ := Nat.exists_eq_add_one.mpr hsteps
    exact ⟨last, if_pos h, .inr ⟨Set.eq_empty_of_forall_notMem (fun k hk => nomatch hk.1), rfl⟩⟩
  | cons c text ih =>
    obtain ⟨steps, rfl⟩ := Nat.exists_eq_add_one.mpr (Nat.zero_lt_of_lt hsteps)
    obtain ⟨hc, hc0, h⟩ := h
    have hstart : sameChar m s ch = true ↔ 0 ∈ foundAt ch (c :: text) := by
      rw [sameChar_iff, hc, foundAt, Set.mem_ofPred_eq, List.getElem?_cons_zero, Option.some_inj]
    have hbyte : ¬ m s = 0 := fun hzero => hc0 (hc.symm.trans hzero)
    have hrest : ∃ r, lastLoop m ch steps (s + 1) (if sameChar m s ch then s else last) = some r ∧ _ :=
      ih h (Nat.lt_of_succ_lt_succ hsteps)
    obtain ⟨r, hr, hlast⟩ := hrest
    rw [lastLoop, if_neg hbyte]
    refine ⟨r, hr, ?_⟩
    obtain ⟨k, hk, rfl⟩ | ⟨hempty, rfl⟩ := hlast
    · exact .inl ⟨k + 1, isGreatest_succ hk, by omega⟩
    · -- the rest has none: this byte is the last one, or there is none here either
      by_cases hfound : 0 ∈ foundAt ch (c :: text)
      · refine .inl ⟨0, ⟨hfound, fun k hk => ?_⟩, if_pos (hstart.mpr hfound)⟩
        cases k with
        | zero => exact le_rfl
        | succ k => exact absurd hk (Set.eq_empty_iff_forall_notMem.mp hempty k)
      · exact .inr ⟨eq_empty_of_succ hempty hfound, if_neg (mt hstart.mp hfound)⟩

theorem strrchr_eq (h : IsString m s text) (h0 : s ≠ 0) (hend : s + text.length < 2 ^ 64)
    (c : Int32) : ∃ r, strrchr m s c = some r ∧
      PointsTo IsGreatest (foundAt c.toUInt32.toUInt8 text) s r := by
  have hsteps : text.length < addresses := lt_addresses (by omega)
  have hloop : ∃ r, lastLoop m c.toUInt32.toUInt8 addresses s 0 = some r ∧ _ := lastLoop_eq h hsteps
  obtain ⟨r, hr, ⟨k, hk, rfl⟩ | ⟨hempty, rfl⟩⟩ := hloop
  · exact ⟨_, hr, pointsTo_greatest hk h0⟩
  · exact ⟨_, hr, pointsTo_empty (fun _ hk => hk.1) hempty⟩

/-- Where the search should find the character. -/
theorem occursAt_nonempty_iff : (occursAt ch text).Nonempty ↔ ch ∈ text ∨ ch = 0 := by
  have hmem : ch ∈ text ++ [0] ↔ ch ∈ text ∨ ch = 0 := by rw [List.mem_append, List.mem_singleton]
  rw [← hmem, List.mem_iff_getElem?]
  rfl

theorem foundAt_nonempty_iff : (foundAt ch text).Nonempty ↔ ch ∈ text ∧ ch.toNat < 128 := by
  rw [List.mem_iff_getElem?]
  exact ⟨fun ⟨k, hk, hlt⟩ => ⟨⟨k, hk⟩, hlt⟩, fun ⟨⟨k, hk⟩, hlt⟩ => ⟨k, hk, hlt⟩⟩

/-- The terminator is not found, nor is a negative `char`. -/
theorem foundAt_eq_occursAt (hch : ch ≠ 0) (hlt : ch.toNat < 128 ∨ ch ∉ text) :
    foundAt ch text = occursAt ch text := by
  ext k
  rw [foundAt, occursAt, Set.mem_ofPred_eq, Set.mem_ofPred_eq]
  by_cases hk : k < text.length
  · rw [List.getElem?_append_left hk]
    refine and_iff_left_of_imp fun hsome => hlt.resolve_right (not_not.mpr ?_)
    exact List.mem_of_getElem? hsome
  · rw [List.getElem?_append_right (Nat.le_of_not_lt hk), List.getElem?_eq_none (Nat.le_of_not_lt hk)]
    refine iff_of_false (fun hnone => nomatch hnone.1) fun hsome => hch ?_
    exact (List.mem_singleton.mp (List.mem_of_getElem? hsome))

/-- The search is right exactly if it finds the character wherever it is. -/
theorem points_iff {best : Set ℕ → ℕ → Prop} (htext : 0 ∉ text)
    (h : PointsTo best (foundAt ch text) s r) :
    PointsTo best (occursAt ch text) s r ↔ ch ≠ 0 ∧ (ch.toNat < 128 ∨ ch ∉ text) := by
  constructor
  · intro hoccurs
    have hempty : ¬ (foundAt ch text).Nonempty ↔ ¬ (occursAt ch text).Nonempty := by
      rw [Set.not_nonempty_iff_eq_empty, Set.not_nonempty_iff_eq_empty, ← h.2, ← hoccurs.2]
    rw [not_iff_not, foundAt_nonempty_iff, occursAt_nonempty_iff] at hempty
    refine ⟨?_, ?_⟩
    · rintro rfl
      exact htext (hempty.mpr (.inr rfl)).1
    · by_cases hmem : ch ∈ text
      · exact .inl (hempty.mpr (.inl hmem)).2
      · exact .inr hmem
  · rintro ⟨hch, hlt⟩
    rwa [← foundAt_eq_occursAt hch hlt]

/-- **`strchr` and `strrchr`** return the first and the last position of the character exactly if it
is not the terminator, and is ASCII or not in the string. -/
theorem strchr_strrchr_iff (h : IsString m s text) (h0 : s ≠ 0) (hend : s + text.length < 2 ^ 64)
    (c : Int32) :
    (∃ r r', strchr m s c = some r ∧ strrchr m s c = some r' ∧
      PointsTo IsLeast (occursAt c.toUInt32.toUInt8 text) s r ∧
      PointsTo IsGreatest (occursAt c.toUInt32.toUInt8 text) s r') ↔
    c.toUInt32.toUInt8 ≠ 0 ∧ (c.toUInt32.toUInt8.toNat < 128 ∨ c.toUInt32.toUInt8 ∉ text) := by
  obtain ⟨r, hr, hfirst⟩ := strchr_eq h h0 hend c
  obtain ⟨r', hr', hlast⟩ := strrchr_eq h h0 hend c
  constructor
  · rintro ⟨q, q', hq, -, hoccurs, -⟩
    rw [hr] at hq
    cases hq
    exact (points_iff h.zero_notMem hfirst).mp hoccurs
  · intro hcond
    exact ⟨r, r', hr, hr', (points_iff h.zero_notMem hfirst).mpr hcond,
      (points_iff h.zero_notMem hlast).mpr hcond⟩

/-- The letter A, twice in a string. -/
theorem strchr_strrchr_letter :
    (IsString (fun a => [65, 66, 65].getD (a - 8) 0) 8 [65, 66, 65] ∧ 8 ≠ 0 ∧ 8 + 3 < 2 ^ 64) ∧
      ((∃ r r', strchr (fun a => [65, 66, 65].getD (a - 8) 0) 8 65 = some r ∧
        strrchr (fun a => [65, 66, 65].getD (a - 8) 0) 8 65 = some r' ∧
        PointsTo IsLeast (occursAt (65 : Int32).toUInt32.toUInt8 [65, 66, 65]) 8 r ∧
        PointsTo IsGreatest (occursAt (65 : Int32).toUInt32.toUInt8 [65, 66, 65]) 8 r') ↔
      (65 : Int32).toUInt32.toUInt8 ≠ 0 ∧ ((65 : Int32).toUInt32.toUInt8.toNat < 128 ∨
        (65 : Int32).toUInt32.toUInt8 ∉ [65, 66, 65])) := by
  have hstring : IsString (fun a => [65, 66, 65].getD (a - 8) 0) 8 [65, 66, 65] :=
    IsString.of_getD (by decide) (by decide)
  exact ⟨⟨hstring, by decide, by decide⟩, strchr_strrchr_iff hstring (by decide) (by decide) 65⟩

/-- The terminator is part of a string, but it is not found. -/
theorem terminator_not_found : strchr (fun a => if a = 8 then 65 else 0) 8 0 = some 0 ∧
    ¬ ∃ r r', strchr (fun a => if a = 8 then 65 else 0) 8 0 = some r ∧
      strrchr (fun a => if a = 8 then 65 else 0) 8 0 = some r' ∧
      PointsTo IsLeast (occursAt (0 : Int32).toUInt32.toUInt8 [65]) 8 r ∧
      PointsTo IsGreatest (occursAt (0 : Int32).toUInt32.toUInt8 [65]) 8 r' := by
  have hstring : IsString (fun a => if a = 8 then 65 else 0) 8 [65] := ⟨rfl, by decide, rfl⟩
  obtain ⟨r, hr, hpoints⟩ := strchr_eq hstring (by decide) (by decide) 0
  have hnone : foundAt (0 : Int32).toUInt32.toUInt8 [65] = ∅ := by
    rw [← Set.not_nonempty_iff_eq_empty, foundAt_nonempty_iff]
    decide
  rw [hpoints.2.mpr hnone] at hr hpoints
  refine ⟨hr, ?_⟩
  rintro ⟨q, q', hq, -, hoccurs, -⟩
  rw [hr] at hq
  cases hq
  exact absurd ((points_iff hstring.zero_notMem hpoints).mp hoccurs).1 (by decide)

end

end PrismaticOS.Libc
