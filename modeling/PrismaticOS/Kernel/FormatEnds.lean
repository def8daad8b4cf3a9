import PrismaticOS.Kernel.ConsolePrintf
import PrismaticOS.Libc.PrintfSpecs

/-!
# The end of a format

Whether `vprintf_internal` and `console_printf` stop at the zero that ends a format. Both take the
character behind a specification before they look for the zero again, and that can be the zero.

## What is proved

* `consoleItem_rest` — where the loop of `console_printf` is after a turn.
* `vprintfLoop_stops`, `consoleItems_stops` — a call that has an outcome has found a zero.
* `format_end_iff` — each of them stops at the zero, and has read nothing behind it, exactly if the
  format does not end inside one of its specifications.
* `percent_overread` — both of them go on behind `"%"`.
-/

namespace PrismaticOS.Kernel

open PrismaticOS.Library PrismaticOS.Libc

/-- What is between a `%` and the specifier for `console_printf`: an `l` or nothing. -/
def IsConsoleSpec (s : Str) : Prop := s = [] ∨ s = [chr 'l']

/-- After that. -/
def skipConsoleSpec (format : Str) : Str := if format.head? = some (chr 'l') then format.tail else format

/-- The loop with these specifications stops at the zero behind the format, without reading more. -/
def StopsAtEnd (skip : Str → Str) (format : Str) : Prop := Stops 0 (chr '%') skip (format ++ [0])

section
variable {format s text : Str}

/-- Where the loop of `vprintf_internal` comes to an end, it has found a zero. -/
theorem vprintfLoop_stops {mem : PrintfMemory} {args : List UInt64} {st st' : PrintfState}
    (h : vprintfLoop mem text args st = some st') : Stops 0 (chr '%') skipSpec text := by
  refine Stops.of_turns (P := fun text => ∃ args st, vprintfLoop mem text args st = some st') ?_
    ⟨args, st, h⟩
  rintro text ⟨args, st, h⟩ hend
  rw [vprintfLoop_next hend] at h
  obtain ⟨r, hpiece, hrest⟩ := Option.bind_eq_some_iff.mp h
  exact ⟨r.2.1, nextPiece_length hpiece, nextPiece_rest hpiece, _, _, hrest⟩

/-- **Where the loop is after a turn.** -/
theorem consoleItem_rest (mem : UInt64 → Str) (format : Str) :
    (consoleItem mem format).map Prod.snd = scanTurn (chr '%') skipConsoleSpec format := by
  cases format with
  | nil => rfl
  | cons c rest =>
    unfold consoleItem scanTurn
    dsimp only
    split_ifs
    · cases rest with
      | nil => rfl
      | cons c rest =>
        dsimp only
        by_cases hl : c = chr 'l'
        · subst hl
          have hhead : (chr 'l' :: rest).head? = some (chr 'l') := rfl
          rw [if_pos rfl, skipConsoleSpec, if_pos hhead]
          cases rest <;> rfl
        · have hne : (c :: rest).head? ≠ some (chr 'l') := fun heq => hl (Option.some.inj heq)
          rw [if_neg hl, skipConsoleSpec, if_neg hne]
          rfl
    · rfl

/-- Where the loop of `console_printf` comes to an end, it has found a zero. -/
theorem consoleItems_stops {mem : UInt64 → Str} {items : List ConsoleItem}
    (h : consoleItems mem text = some items) : Stops 0 (chr '%') skipConsoleSpec text := by
  refine Stops.of_turns (P := fun text => ∃ items, consoleItems mem text = some items) ?_ ⟨items, h⟩
  rintro text ⟨items, h⟩ hend
  rw [consoleItems_next hend] at h
  obtain ⟨⟨item, rest⟩, hitem, hrest⟩ := Option.bind_eq_some_iff.mp h
  obtain ⟨items', hitems, -⟩ := Option.map_eq_some_iff.mp hrest
  have hturn : scanTurn (chr '%') skipConsoleSpec text = some rest := by
    rw [← consoleItem_rest mem, hitem, Option.map_some]
  exact ⟨rest, consoleItem_length hitem, hturn, items', hitems⟩

/-- **`console_printf` takes the longest specification.** -/
theorem skipConsoleSpec_skips : Skips IsConsoleSpec skipConsoleSpec where
  took format := by
    unfold skipConsoleSpec
    split_ifs with hl
    · exact ⟨[chr 'l'], .inr rfl, head_tail hl⟩
    · exact ⟨[], .inl rfl, rfl⟩
  longest s rest hs := by
    rcases hs with rfl | rfl
    · unfold skipConsoleSpec
      split_ifs
      · exact (List.tail_suffix _).length_le
      · exact le_rfl
    · exact le_rfl

/-- **The end of a format.** Whatever the arguments are, each function stops at the zero exactly if
the format does not end inside a specification. Where it does, no call has an outcome without what is
behind the zero. -/
theorem format_end_iff (hformat : 0 ∉ format) :
    ((StopsAtEnd skipSpec format ↔ ¬ CutOff (chr '%') IsSpec format) ∧
        (CutOff (chr '%') IsSpec format → ∀ mem buf args,
          vprintfInternal mem buf (format ++ [0]) args = none)) ∧
      (StopsAtEnd skipConsoleSpec format ↔ ¬ CutOff (chr '%') IsConsoleSpec format) ∧
      (CutOff (chr '%') IsConsoleSpec format → ∀ mem args s,
        consolePrintf mem (format ++ [0]) args s = none) := by
  have hv : StopsAtEnd skipSpec format ↔ ¬ CutOff (chr '%') IsSpec format :=
    stops_iff skipSpec_skips (by decide) (fun _ => zero_notMem_spec) hformat
  have hc : StopsAtEnd skipConsoleSpec format ↔ ¬ CutOff (chr '%') IsConsoleSpec format := by
    refine stops_iff skipConsoleSpec_skips (by decide) ?_ hformat
    rintro s (rfl | rfl)
    · decide
    · decide
  refine ⟨⟨hv, fun hcut mem buf args => ?_⟩, hc, fun hcut mem args s => ?_⟩
  · by_contra hsome
    obtain ⟨st, hst⟩ := Option.ne_none_iff_exists'.mp hsome
    exact hv.mp (vprintfLoop_stops hst) hcut
  · by_contra hsome
    obtain ⟨s', hs'⟩ := Option.ne_none_iff_exists'.mp hsome
    rw [consolePrintf_eq] at hs'
    obtain ⟨items, hitems, -⟩ := Option.bind_eq_some_iff.mp hs'
    exact hc.mp (consoleItems_stops hitems) hcut

/-- `"a%"` is an example. -/
theorem format_end_percent :
    ((StopsAtEnd skipSpec (str "a%") ↔ ¬ CutOff (chr '%') IsSpec (str "a%")) ∧
        (CutOff (chr '%') IsSpec (str "a%") → ∀ mem buf args,
          vprintfInternal mem buf (str "a%" ++ [0]) args = none)) ∧
      (StopsAtEnd skipConsoleSpec (str "a%") ↔ ¬ CutOff (chr '%') IsConsoleSpec (str "a%")) ∧
      (CutOff (chr '%') IsConsoleSpec (str "a%") → ∀ mem args s,
        consolePrintf mem (str "a%" ++ [0]) args s = none) :=
  format_end_iff (by decide)

/-- **A `%` at the end**: both go on behind the zero. -/
theorem percent_overread : ¬ ∀ format : Str, 0 ∉ format →
    StopsAtEnd skipSpec format ∧ StopsAtEnd skipConsoleSpec format := by
  intro hall
  have hend := (hall [chr '%'] (by decide)).1
  have hcut : CutOff (chr '%') IsSpec [chr '%'] :=
    .here ⟨[], [], [], .none, nofun, .inr nofun, .inl rfl, rfl⟩
  exact (stops_iff skipSpec_skips (by decide) (fun _ => zero_notMem_spec) (by decide)).mp hend hcut

end

end PrismaticOS.Kernel
