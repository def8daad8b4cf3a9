import Mathlib.Data.List.Basic
import Mathlib.Data.List.TakeWhile

/-!
# Lists with separators

A list of symbols, one of which separates the others into fields, as a path is
separated by slashes. Tokens are the fields that are not empty.

## What is proved

* `tokens_append` — the tokens of two lists joined by a separator.
* `beforeLast_append`, `lastField_append` — of a list with a separator, what is before the last
  one and what is after it.
-/

namespace PrismaticOS.Library

variable {α : Type*} [DecidableEq α]

/-- The fields of a list, empty ones included. -/
def fields (sep : α) : List α → List (List α)
  | [] => [[]]
  | c :: cs =>
    if c = sep then [] :: fields sep cs
    else
      match fields sep cs with
      | [] => [[c]]
      | f :: fs => (c :: f) :: fs

/-- The fields of a list that are not empty. -/
def tokens (sep : α) (l : List α) : List (List α) := (fields sep l).filter (· ≠ [])

/-- What is after the last separator, or everything. -/
def lastField (sep : α) (l : List α) : List α := (l.reverse.takeWhile (· ≠ sep)).reverse

/-- What is before the last separator. -/
def beforeLast (sep : α) (l : List α) : List α := l.take (l.length - (lastField sep l).length - 1)

variable {sep : α}

theorem fields_ne_nil (sep : α) (l : List α) : fields sep l ≠ [] := by
  cases l with
  | nil => nofun
  | cons c cs =>
    unfold fields
    by_cases hc : c = sep
    · rw [if_pos hc]
      nofun
    · rw [if_neg hc]
      split <;> nofun

theorem length_fields_le (sep : α) (l : List α) : (fields sep l).length ≤ l.length + 1 := by
  induction l with
  | nil => exact le_rfl
  | cons c l ih =>
    rw [fields, List.length_cons]
    split
    · exact Nat.succ_le_succ ih
    · split
      · exact Nat.succ_le_succ (Nat.zero_le _)
      · rename_i f fs hfields
        rw [hfields, List.length_cons] at ih
        rw [List.length_cons]
        omega

theorem fields_append (l m : List α) : fields sep (l ++ sep :: m) = fields sep l ++ fields sep m := by
  induction l with
  | nil => simp [fields]
  | cons c cs ih =>
    rw [List.cons_append, fields, fields]
    by_cases hc : c = sep
    · rw [if_pos hc, if_pos hc, ih, List.cons_append]
    · rw [if_neg hc, if_neg hc, ih]
      obtain ⟨f, fs, hf⟩ := List.exists_cons_of_ne_nil (fields_ne_nil sep cs)
      rw [hf]
      rfl

theorem fields_of_not_mem {l : List α} (h : sep ∉ l) : fields sep l = [l] := by
  induction l with
  | nil => rfl
  | cons c cs ih =>
    rw [List.mem_cons, not_or] at h
    rw [fields, if_neg (Ne.symm h.1), ih h.2]

/-- **Tokens of a join.** -/
theorem tokens_append (l m : List α) : tokens sep (l ++ sep :: m) = tokens sep l ++ tokens sep m := by
  unfold tokens
  rw [fields_append, List.filter_append]

theorem tokens_of_not_mem {l : List α} (h : sep ∉ l) (hne : l ≠ []) : tokens sep l = [l] := by
  unfold tokens
  rw [fields_of_not_mem h]
  simp [hne]

@[simp] theorem tokens_nil : tokens sep ([] : List α) = [] := by
  simp [tokens, fields]

theorem length_tokens_le (sep : α) (l : List α) : (tokens sep l).length ≤ l.length + 1 :=
  (List.length_filter_le _ _).trans (length_fields_le sep l)

theorem tokens_cons_sep (l : List α) : tokens sep (sep :: l) = tokens sep l := by
  have h : tokens sep ([] ++ sep :: l) = tokens sep [] ++ tokens sep l := tokens_append [] l
  rwa [List.nil_append, tokens_nil, List.nil_append] at h

/-- **The first token**: there is none, or it stands between separators, or at an end. -/
theorem tokens_cases (sep : α) (l : List α) :
    (tokens sep l = [] ∧ l = List.replicate l.length sep) ∨
      ∃ n token more, l = List.replicate n sep ++ (token ++ more) ∧ token ≠ [] ∧ sep ∉ token ∧
        (more = [] ∨ more.head? = some sep) ∧ tokens sep l = token :: tokens sep more := by
  induction l with
  | nil => exact .inl ⟨tokens_nil, rfl⟩
  | cons c l ih =>
    by_cases hc : c = sep
    · subst hc
      rw [tokens_cons_sep]
      rcases ih with ⟨hnone, hall⟩ | ⟨n, token, more, hl, hrest⟩
      · refine .inl ⟨hnone, ?_⟩
        rw [List.length_cons, List.replicate_succ, ← hall]
      · refine .inr ⟨n + 1, token, more, ?_, hrest⟩
        rw [List.replicate_succ, List.cons_append, ← hl]
    · -- the token is what is before the next separator
      have hsplit := List.takeWhile_append_dropWhile (p := (· ≠ sep)) (l := c :: l)
      have htoken : sep ∉ (c :: l).takeWhile (· ≠ sep) := by
        intro hmem
        simpa using List.mem_takeWhile_imp hmem
      have hne : (c :: l).takeWhile (· ≠ sep) ≠ [] := by simp [hc]
      refine .inr ⟨0, (c :: l).takeWhile (· ≠ sep), (c :: l).dropWhile (· ≠ sep), ?_, hne, htoken, ?_,
        ?_⟩
      · exact hsplit.symm
      · cases hmore : (c :: l).dropWhile (· ≠ sep) with
        | nil => exact .inl rfl
        | cons d more =>
          have hd := List.head?_dropWhile_not (· ≠ sep) (c :: l)
          rw [hmore] at hd
          exact .inr (by simpa using hd)
      · cases hmore : (c :: l).dropWhile (· ≠ sep) with
        | nil =>
          rw [hmore, List.append_nil] at hsplit
          rw [tokens_nil, hsplit, tokens_of_not_mem (hsplit ▸ htoken) (by simp)]
        | cons d more =>
          have hd := List.head?_dropWhile_not (· ≠ sep) (c :: l)
          rw [hmore] at hd
          obtain rfl : d = sep := by simpa using hd
          rw [hmore] at hsplit
          rw [tokens_cons_sep]
          conv_lhs => rw [← hsplit]
          rw [tokens_append, tokens_of_not_mem htoken hne]
          rfl

theorem lastField_append {l m : List α} (h : sep ∉ m) : lastField sep (l ++ sep :: m) = m := by
  unfold lastField
  rw [List.reverse_append, List.reverse_cons, List.append_assoc, List.takeWhile_append_of_pos]
  · simp
  · intro x hx
    rw [decide_eq_true_eq]
    rintro rfl
    exact h (List.mem_reverse.mp hx)

theorem beforeLast_append {l m : List α} (h : sep ∉ m) : beforeLast sep (l ++ sep :: m) = l := by
  unfold beforeLast
  rw [lastField_append h, List.length_append, List.length_cons,
    show l.length + (m.length + 1) - m.length - 1 = l.length by omega, List.take_left']
  rfl

end PrismaticOS.Library
