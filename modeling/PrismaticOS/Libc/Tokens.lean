import Mathlib.Data.List.GetD
import PrismaticOS.Libc.Strings
import PrismaticOS.Library.TextRuns

/-!
# All the tokens of a string

`strtok_r` of `libc/src/string/strlen.c`, called with a string and then with `NULL`.

## What is proved

* `tokenCalls_runs` — what the next calls return and write, by induction on the runs of what is
  left.
* `strtokR_returns_runs` — any number of calls returns the runs of the string between delimiters in
  order, and `NULL` when there are none left.
-/

namespace PrismaticOS.Libc

open PrismaticOS.Library

/-- So many calls of `strtok_r`, the first one with `str` and the others with `NULL`: the memory and
`*saveptr` after them, and what they return. -/
def tokenCalls (delim : List UInt8) : ℕ → Mem → ℕ → ℕ → Option (Mem × ℕ × List ℕ)
  | 0, m, saveptr, _ => some (m, saveptr, [])
  | k + 1, m, saveptr, str =>
    (strtokR m saveptr str delim).bind fun t =>
      (tokenCalls delim k t.mem t.saveptr 0).map fun r => (r.1, r.2.1, t.token :: r.2.2)

/-- What so many calls should return: pointers to the runs of the string at `s`, and `NULL`. -/
def tokenPointers (s : ℕ) (rs : List (ℕ × ℕ)) (k : ℕ) : List ℕ :=
  (List.range k).map fun i => (rs.map fun r => s + r.1).getD i 0

/-- There are zeros behind these runs of the string at `s`, and the memory is the same otherwise. -/
def Ended (m m' : Mem) (s : ℕ) (rs : List (ℕ × ℕ)) : Prop :=
  ∀ x, m' x = if ∃ r ∈ rs, x = s + (r.1 + r.2) then 0 else m x

section
variable {m m' m'' : Mem} {s saveptr o : ℕ} {delim text : List UInt8} {rs : List (ℕ × ℕ)}

theorem tokenPointers_nil (s k : ℕ) : tokenPointers s [] k = List.replicate k 0 := by
  simp [tokenPointers]

theorem tokenPointers_cons (s : ℕ) (r : ℕ × ℕ) (rs : List (ℕ × ℕ)) (k : ℕ) :
    tokenPointers s (r :: rs) (k + 1) = (s + r.1) :: tokenPointers s rs k := by
  rw [tokenPointers, List.range_succ_eq_map, List.map_cons, List.map_map]
  rfl

theorem Ended.refl (m : Mem) (s : ℕ) : Ended m m s [] := fun _ => (if_neg (by simp)).symm

/-- One more zero, before the others. -/
theorem Ended.cons {r : ℕ × ℕ} (h : Ended (Function.update m (s + (r.1 + r.2)) 0) m' s rs) :
    Ended m m' s (r :: rs) := by
  intro x
  rw [h x, Function.update_apply]
  simp only [List.exists_mem_cons_iff]
  by_cases hrs : ∃ r ∈ rs, x = s + (r.1 + r.2)
  · rw [if_pos hrs, if_pos (.inr hrs)]
  · by_cases hr : x = s + (r.1 + r.2)
    · rw [if_neg hrs, if_pos hr, if_pos (.inl hr)]
    · rw [if_neg hrs, if_neg hr, if_neg (not_or.mpr ⟨hr, hrs⟩)]

/-- Nothing is left: all calls return `NULL`. -/
theorem tokenCalls_done (h : saveptr = 0 ∨ m saveptr = 0) (k : ℕ) :
    tokenCalls delim k m saveptr 0 = some (m, saveptr, List.replicate k 0) := by
  induction k with
  | zero => rfl
  | succ k ih =>
    rw [tokenCalls, strtokR_done h, Option.bind_some, ih]
    rfl

/-- **The next calls** return the runs of what is left: by induction on these. -/
theorem tokenCalls_runs (h : TextRuns delim o text rs)
    (hleft : saveptr = 0 ∧ text = [] ∨ saveptr = s + o ∧ saveptr ≠ 0 ∧ IsString m saveptr text)
    (hlen : text.length < addresses) (k : ℕ) :
    ∃ m' q, tokenCalls delim k m saveptr 0 = some (m', q, tokenPointers s rs k) ∧
      Ended m m' s (rs.take k) := by
  induction h generalizing m saveptr k with
  | none htext =>
    rw [tokenPointers_nil, List.take_nil]
    cases k with
    | zero => exact ⟨m, saveptr, rfl, .refl m s⟩
    | succ k =>
      rcases hleft with ⟨h0, -⟩ | ⟨-, h0, hstring⟩
      · exact ⟨m, saveptr, tokenCalls_done (.inl h0) _, .refl m s⟩
      · obtain ⟨q, hq, hdone⟩ := strtokR_delims h0 hstring htext hlen
        refine ⟨m, q, ?_, .refl m s⟩
        rw [tokenCalls, hq, Option.bind_some, tokenCalls_done hdone]
        rfl
  | @run o gap token more rs hgap hne htoken hmore hrest ih =>
    cases k with
    | zero => exact ⟨m, saveptr, rfl, .refl m s⟩
    | succ k =>
      rcases hleft with ⟨-, hnil⟩ | ⟨rfl, h0, hstring⟩
      · simp [hne] at hnil
      · have hcall := strtokR_token h0 hstring hgap hne htoken hmore hlen
        simp only [List.length_append] at hlen
        have hafter : (if more = [] then 0 else s + o + gap.length + token.length + 1) = 0 ∧
              more.tail = [] ∨
            (if more = [] then 0 else s + o + gap.length + token.length + 1) =
              s + (o + gap.length + token.length + 1) ∧
            (if more = [] then 0 else s + o + gap.length + token.length + 1) ≠ 0 ∧
            IsString (Function.update m (s + o + gap.length + token.length) 0)
              (if more = [] then 0 else s + o + gap.length + token.length + 1) more.tail := by
          cases more with
          | nil => exact .inl ⟨rfl, rfl⟩
          | cons c more =>
            have hnext : IsString m (s + o + gap.length + token.length + 1) more :=
              hstring.drop.drop.2.2
            refine .inr ⟨?_, Nat.succ_ne_zero _, ?_⟩
            · rw [if_neg (List.cons_ne_nil c more)]
              omega
            · exact hnext.congr fun x hx _ => Function.update_of_ne (by omega) _ _
        obtain ⟨m', q, hcalls, hended⟩ := ih hafter (by rw [List.length_tail]; omega) k
        have hpointer : s + o + gap.length = s + (o + gap.length) := Nat.add_assoc ..
        refine ⟨m', q, ?_, ?_⟩
        · rw [tokenCalls, hcall, Option.bind_some, hcalls, tokenPointers_cons, ← hpointer]
          rfl
        · rw [List.take_succ_cons]
          refine .cons ?_
          rwa [hpointer, Nat.add_assoc s] at hended

/-- A run is a string once there is a zero behind it. -/
theorem isString_run (h : IsString m s text) (hruns : ∀ r ∈ rs, IsRun (Plain delim text) r.1 r.2)
    (hended : Ended m m' s rs) {r : ℕ × ℕ} (hr : r ∈ rs) :
    IsString m' (s + r.1) ((text.drop r.1).take r.2) := by
  have hrun := hruns r hr
  have hin {i : ℕ} (hi : i < r.2) : r.1 + i < text.length := by
    obtain ⟨c, hc, -⟩ := hrun.inside i hi
    exact (List.getElem?_eq_some_iff.mp hc).1
  have hlen : ((text.drop r.1).take r.2).length = r.2 := by
    have hlast := hin (Nat.sub_lt hrun.pos (by decide : 0 < 1))
    have hpos := hrun.pos
    rw [List.length_take_of_le]
    rw [List.length_drop]
    omega
  refine .of_getD (fun i hi => ?_) fun hmem => ?_
  · rw [hlen] at hi
    rw [hended, Nat.add_assoc]
    rcases Nat.lt_or_eq_of_le hi with hlt | rfl
    · -- no run ends inside another one
      have hnot : ¬ ∃ r' ∈ rs, s + (r.1 + i) = s + (r'.1 + r'.2) := by
        rintro ⟨r', hr', hsame⟩
        exact (hruns r' hr').after (Nat.add_left_cancel hsame ▸ hrun.inside i hlt)
      rw [if_neg hnot, h.byte (hin hlt).le, List.getD_eq_getElem?_getD, List.getD_eq_getElem?_getD,
        List.getElem?_take_of_lt hlt, List.getElem?_drop]
    · rw [if_pos ⟨r, hr, rfl⟩, List.getD_eq_default _ _ hlen.le]
  · exact h.zero_notMem (List.mem_of_mem_drop (List.mem_of_mem_take hmem))

/-- The first call keeps the string. -/
theorem tokenCalls_start (h0 : s ≠ 0) (k : ℕ) :
    tokenCalls delim (k + 1) m saveptr s = tokenCalls delim (k + 1) m s 0 := by
  have hfirst : strtokR m saveptr s delim = strtokR m s 0 delim := strtok_start m saveptr h0 delim
  rw [tokenCalls, hfirst, tokenCalls]

/-- **The calls of `strtok_r`** with a string and then with `NULL` return its maximal runs without
delimiters in order, each a string, and then `NULL`; nothing changes but the bytes behind those
that were returned. -/
theorem strtokR_returns_runs (h : IsString m s text) (h0 : s ≠ 0) (hend : s + text.length < 2 ^ 64)
    (delim : List UInt8) :
    ∃ rs : List (ℕ × ℕ), (∀ r, r ∈ rs ↔ IsRun (Plain delim text) r.1 r.2) ∧
      (rs.Pairwise fun a b => a.1 + a.2 < b.1) ∧
      ∀ saveptr k, ∃ m' q, tokenCalls delim k m saveptr s = some (m', q, tokenPointers s rs k) ∧
        Ended m m' s (rs.take k) ∧
        ∀ r ∈ rs.take k, IsString m' (s + r.1) ((text.drop r.1).take r.2) := by
  have hlen : text.length < addresses := lt_addresses (by omega)
  obtain ⟨rs, hrs⟩ := exists_textRuns delim 0 text
  have hmem (r : ℕ × ℕ) : r ∈ rs ↔ IsRun (Plain delim text) r.1 r.2 := by
    rw [← hrs.mem_iff, Nat.zero_add]
  refine ⟨rs, hmem, hrs.pairwise, fun saveptr k => ?_⟩
  cases k with
  | zero => exact ⟨m, saveptr, rfl, .refl m s, nofun⟩
  | succ k =>
    obtain ⟨m', q, hcalls, hended⟩ := tokenCalls_runs hrs (.inr ⟨rfl, h0, h⟩) hlen (k + 1)
    rw [tokenCalls_start h0]
    exact ⟨m', q, hcalls, hended, fun r hr => isString_run h
      (fun r' hr' => (hmem r').mp (List.mem_of_mem_take hr')) hended hr⟩

/-- Two delimiters, and a string that begins and ends with one. -/
theorem strtokR_returns_runs_path :
    (IsString (fun a => [47, 65, 46, 47, 66, 47].getD (a - 8) 0) 8 [47, 65, 46, 47, 66, 47] ∧
      8 ≠ 0 ∧ 8 + 6 < 2 ^ 64) ∧
    ∃ rs : List (ℕ × ℕ),
      (∀ r, r ∈ rs ↔ IsRun (Plain [47, 46] [(47 : UInt8), 65, 46, 47, 66, 47]) r.1 r.2) ∧
      (rs.Pairwise fun a b => a.1 + a.2 < b.1) ∧
      ∀ saveptr k, ∃ m' q, tokenCalls [47, 46] k
          (fun a => [47, 65, 46, 47, 66, 47].getD (a - 8) 0) saveptr 8 =
            some (m', q, tokenPointers 8 rs k) ∧
        Ended (fun a => [47, 65, 46, 47, 66, 47].getD (a - 8) 0) m' 8 (rs.take k) ∧
        ∀ r ∈ rs.take k, IsString m' (8 + r.1) (([47, 65, 46, 47, 66, 47].drop r.1).take r.2) := by
  have hstring : IsString (fun a => [47, 65, 46, 47, 66, 47].getD (a - 8) 0) 8
      [47, 65, 46, 47, 66, 47] := IsString.of_getD (by decide) (by decide)
  exact ⟨⟨hstring, by decide, by decide⟩,
    strtokR_returns_runs hstring (by decide) (by decide) [47, 46]⟩

end

end PrismaticOS.Libc
