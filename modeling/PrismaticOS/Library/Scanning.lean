import Mathlib.Data.List.Infix

/-!
# Texts with specifications

A text in memory ends with a terminator. A scanner goes through it by turns: it takes one character,
or, where that is the mark, the specification after it, which is as long as it can be, and the
character behind that. So it can take the terminator for the last character of a specification, and
go on behind the text.

## What is proved

* `stops_iff` — the scanner stops at the terminator exactly if the text does not end inside a
  specification.
-/

namespace PrismaticOS.Library

variable {α : Type*}

/-- One turn, where `skip` takes a specification. It is `none` if it reads behind the list. -/
def scanTurn [DecidableEq α] (mark : α) (skip : List α → List α) : List α → Option (List α)
  | [] => none
  | c :: rest =>
    if c = mark then
      match skip rest with
      | [] => none
      | _ :: rest => some rest
    else some rest

/-- The scanner comes to the terminator, and reads nothing behind the list before. -/
inductive Stops [DecidableEq α] (terminator mark : α) (skip : List α → List α) : List α → Prop where
  /-- It is there. -/
  | here (rest : List α) : Stops terminator mark skip (terminator :: rest)
  /-- It comes there after one more turn. -/
  | turn {c : α} {text rest : List α} (hc : c ≠ terminator)
    (hturn : scanTurn mark skip (c :: text) = some rest) (hrest : Stops terminator mark skip rest) :
    Stops terminator mark skip (c :: text)

/-- The text ends inside a specification. -/
inductive CutOff (mark : α) (Spec : List α → Prop) : List α → Prop where
  /-- It is the last one. -/
  | here {s : List α} (hs : Spec s) : CutOff mark Spec (mark :: s)
  /-- There is another character before. -/
  | char {c : α} {text : List α} (hc : c ≠ mark) (htext : CutOff mark Spec text) :
    CutOff mark Spec (c :: text)
  /-- There is a specification before, as long as it can be, and the character behind it. -/
  | spec {s : List α} {c : α} {text : List α} (hs : Spec s)
    (hmost : ∀ s', Spec s' → s' <+: s ++ c :: text → s'.length ≤ s.length)
    (htext : CutOff mark Spec text) : CutOff mark Spec (mark :: (s ++ c :: text))

/-- What `skip` takes is a specification, and none is longer. -/
structure Skips (Spec : List α → Prop) (skip : List α → List α) : Prop where
  /-- It takes a specification. -/
  took : ∀ text, ∃ s, Spec s ∧ text = s ++ skip text
  /-- No longer one is there. -/
  longest : ∀ s rest, Spec s → (skip (s ++ rest)).length ≤ rest.length

variable {terminator mark c d : α} {Spec : List α → Prop} {skip : List α → List α}
  {s s' text rest tail : List α}

/-- The specification that is taken is the longest one. -/
theorem Skips.length_le (h : Skips Spec skip) (hs : Spec s) (hstart : s <+: text)
    (hs' : text = s' ++ skip text) : s.length ≤ s'.length := by
  obtain ⟨rest, rfl⟩ := hstart
  have hlong := h.longest s rest hs
  have hlength := congrArg List.length hs'
  rw [List.length_append, List.length_append] at hlength
  omega

/-- A specification that is not the last one does not matter. -/
theorem cutOff_spec (h : Skips Spec skip) (hs : Spec s)
    (hskip : skip (s ++ d :: rest ++ tail) = d :: rest ++ tail) :
    CutOff mark Spec (mark :: (s ++ d :: rest)) ↔ CutOff mark Spec rest := by
  have hmost : ∀ s', Spec s' → s' <+: s ++ d :: rest → s'.length ≤ s.length := by
    intro s' hs' hstart
    refine h.length_le hs' (hstart.trans (List.prefix_append _ tail)) ?_
    rw [hskip, List.append_assoc]
  constructor
  · intro hcut
    generalize htext : mark :: (s ++ d :: rest) = text at hcut
    cases hcut with
    | here hs' =>
      obtain rfl := (List.cons.inj htext).2
      have hle := hmost _ hs' List.prefix_rfl
      rw [List.length_append, List.length_cons] at hle
      omega
    | char hc _ => exact absurd (List.cons.inj htext).1.symm hc
    | spec hs' hmost' hcut =>
      -- both are the longest one
      have heq := (List.cons.inj htext).2
      have hle := hmost' s hs (heq ▸ List.prefix_append s _)
      have hle' := hmost _ hs' (heq ▸ List.prefix_append _ _)
      obtain ⟨-, hrest⟩ := List.append_inj heq (le_antisymm hle hle')
      rwa [(List.cons.inj hrest).2]
  · exact fun hcut => .spec hs hmost hcut

theorem cutOff_char (hc : c ≠ mark) : CutOff mark Spec (c :: text) ↔ CutOff mark Spec text := by
  constructor
  · rintro (_ | ⟨-, htext⟩)
    · exact absurd rfl hc
    · exact htext
    · exact absurd rfl hc
  · exact fun htext => .char hc htext

variable [DecidableEq α]

theorem stops_turn (hc : c ≠ terminator) (hturn : scanTurn mark skip (c :: text) = some rest) :
    Stops terminator mark skip (c :: text) ↔ Stops terminator mark skip rest := by
  constructor
  · rintro (_ | ⟨-, hturn', hrest⟩)
    · exact absurd rfl hc
    · exact Option.some.inj (hturn.symm.trans hturn') ▸ hrest
  · exact fun hrest => .turn hc hturn hrest

/-- A loop that takes these turns and comes to an end has stopped. -/
theorem Stops.of_turns {P : List α → Prop} (hP : ∀ text, P text → text.head? ≠ some terminator →
      ∃ rest, rest.length < text.length ∧ scanTurn mark skip text = some rest ∧ P rest)
    (h : P text) : Stops terminator mark skip text := by
  induction hn : text.length using Nat.strong_induction_on generalizing text with
  | _ n ih =>
  subst hn
  by_cases hend : text.head? = some terminator
  · cases text with
    | nil => cases hend
    | cons c text => exact Option.some.inj hend ▸ .here text
  · obtain ⟨rest, hlt, hturn, hrest⟩ := hP text h hend
    cases text with
    | nil => cases hturn
    | cons c text => exact .turn (fun hc => hend (congrArg some hc)) hturn (ih _ hlt hrest rfl)

/-- **Where the scanner stops**: at the terminator, exactly if the text is not cut off. -/
theorem stops_iff (h : Skips Spec skip) (hmark : mark ≠ terminator)
    (hspec : ∀ s, Spec s → terminator ∉ s) (htext : terminator ∉ text) :
    Stops terminator mark skip (text ++ [terminator]) ↔ ¬ CutOff mark Spec text := by
  induction hn : text.length using Nat.strong_induction_on generalizing text with
  | _ n ih =>
  subst hn
  cases text with
  | nil => exact iff_of_true (.here []) fun hcut => by cases hcut
  | cons c text =>
    obtain ⟨hc, hrest⟩ := List.ne_and_not_mem_of_not_mem_cons htext
    by_cases hcm : c = mark
    · subst hcm
      obtain ⟨s, hs, heq⟩ := h.took (text ++ [terminator])
      obtain ⟨v, rfl, hv⟩ : ∃ v, text = s ++ v ∧ skip (text ++ [terminator]) = v ++ [terminator] := by
        rcases List.append_eq_append_iff.mp heq with ⟨u, hu, hlast⟩ | hv
        · -- the specification does not take the terminator
          cases u with
          | nil => exact ⟨[], by simpa using hu.symm, hlast.symm⟩
          | cons x u =>
            obtain rfl := (List.cons.inj hlast).1
            refine absurd ?_ (hspec s hs)
            rw [hu]
            exact List.mem_append_right _ List.mem_cons_self
        · exact hv
      cases v with
      | nil =>
        -- the terminator is taken for the last character
        have hturn : scanTurn c skip (c :: (s ++ [] ++ [terminator])) = some [] := by
          rw [scanTurn, if_pos rfl, hv]
          rfl
        rw [List.cons_append, stops_turn hc.symm hturn, List.append_nil]
        exact iff_of_false (fun hstops => by cases hstops) (not_not.mpr (.here hs))
      | cons d v =>
        have hturn : scanTurn c skip (c :: (s ++ d :: v ++ [terminator])) = some (v ++ [terminator]) := by
          rw [scanTurn, if_pos rfl, hv]
          rfl
        rw [List.cons_append, stops_turn hc.symm hturn, cutOff_spec h hs hv]
        refine ih v.length ?_ (fun hv => hrest ?_) rfl
        · simp
          omega
        · exact List.mem_append_right _ (List.mem_cons_of_mem d hv)
    · have hturn : scanTurn mark skip (c :: (text ++ [terminator])) = some (text ++ [terminator]) :=
        if_neg hcm
      rw [List.cons_append, stops_turn hc.symm hturn, cutOff_char hcm]
      exact ih text.length (Nat.lt_succ_self _) hrest rfl

end PrismaticOS.Library
