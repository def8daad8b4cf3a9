import PrismaticOS.Css.InputReads
import PrismaticOS.Css.ParserRuns

/-!
# The CSS parser ends

A call of `css_next_token` that finds a token goes on, and one that finds none leaves an inner loop,
so that all loops end. The position may go behind the end of the input: a comment without an end
moves it by two, and a character behind which nothing is found by one.

## What is proved

* `nextToken_le_end` — the position is never more than two behind the input.
* `turn_size` — every turn makes the parser smaller.
* `css_parser_ends` — in any run every call is safe, and every run ends with the stylesheet.
-/

namespace PrismaticOS.Css

open PrismaticOS.Libc
open PrismaticOS.Html (Cursor)

section
variable {input : Str} {pos : ℕ} {ch : UInt8}

/-! ### How far the position goes -/

theorem skipEscaped_le (last : UInt8) (h : pos ≤ input.length) :
    skipEscaped input last pos ≤ input.length := by
  fun_induction skipEscaped input last pos with
  | case1 pos hlook hlt hescape ih =>
    simp only [Bool.and_eq_true, decide_eq_true_eq] at hescape
    exact ih hescape.2
  | case2 pos hlook hlt hescape ih => exact ih hlt
  | case3 pos hlook => exact h

theorem parseIdent_le (h : pos ≤ input.length) : (cssParseIdent input pos).2 ≤ input.length := by
  unfold cssParseIdent
  split_ifs with hstart
  · exact skipWhile_le isIdentChar (looksAtA_lt input pos hstart)
  · exact h

theorem parseString_le (quote : UInt8) (h : pos < input.length) :
    (cssParseString input pos quote).2 ≤ input.length := by
  have hstop := skipEscaped_le quote (Nat.succ_le_of_lt h)
  unfold cssParseString
  simp only
  split_ifs with hend
  · exact hstop
  · exact not_le.mp hend

theorem parseBareUrl_le (h : pos ≤ input.length) :
    (cssParseBareUrl input pos).2 ≤ input.length := by
  have hstop := skipEscaped_le (chr ')') h
  unfold cssParseBareUrl
  simp only
  split_ifs <;> exact hstop

theorem parseUrl_le (h : pos + 3 ≤ input.length) : (cssParseUrl input pos).2 ≤ input.length := by
  have hstart := skipWhile_le isspace h
  unfold cssParseUrl
  simp only
  generalize skipWhile input (pos + 3) isspace = start at hstart ⊢
  have hurl : (if looksAtA input start isQuote then
      cssParseString input start (input[start]?.getD 0)
      else cssParseBareUrl input start).2 ≤ input.length := by
    split_ifs with hquoted
    · exact parseString_le _ (looksAtA_lt input start hquoted)
    · exact parseBareUrl_le hstart
  generalize (if looksAtA input start isQuote then
    cssParseString input start (input[start]?.getD 0)
    else cssParseBareUrl input start) = url at hurl ⊢
  have hspace := skipWhile_le isspace hurl
  split_ifs with hnone hclose
  · exact hurl
  · exact looksAt_lt hclose
  · exact hspace

theorem tokenOr_le {found : Option Str × ℕ} (type : CssTokenType) (h : found.2 ≤ input.length) :
    (tokenOr pos type ch found).2 ≤ input.length + 1 := by
  obtain ⟨value, stop⟩ := found
  cases value with
  | none => exact Nat.succ_le_succ h
  | some value => exact h.trans (Nat.le_succ _)

/-- A longer token ends in the input, or one behind it. -/
theorem longToken_le (numbers : NumberReader) (h : pos < input.length) (ch : UInt8) :
    (longToken input pos numbers ch).2 ≤ input.length + 1 := by
  have hfall : (fallback pos pos ch).2 ≤ input.length + 1 := Nat.succ_le_succ h.le
  have hident : (tokenOr pos .ident ch (cssParseIdent input pos)).2 ≤ input.length + 1 :=
    tokenOr_le .ident (parseIdent_le h.le)
  unfold longToken
  split_ifs with hstar hat hhash hdot hdigit hnumber hquote hu hurl halpha
  · exact hfall
  · exact tokenOr_le .atKeyword (parseIdent_le h)
  · apply tokenOr_le
    split_ifs
    · exact h
    · exact skipWhile_le isxdigit h
  · exact (parseNumber_inside h).2.trans (Nat.le_succ _)
  · exact hfall
  · exact (numbers.within input pos h).trans (Nat.le_succ _)
  · exact tokenOr_le .string (parseString_le ch h)
  · apply tokenOr_le
    have hlength : (slice input pos (pos + 4)).length = 4 := length_of_sameCase hurl
    rw [slice, List.length_take, List.length_drop] at hlength
    exact parseUrl_le (by omega)
  · exact hident
  · exact hident
  · exact hfall

theorem cssToken_le (numbers : NumberReader) (h : pos < input.length) (ch : UInt8) :
    (cssToken input pos numbers ch).2 ≤ input.length + 1 := by
  unfold cssToken
  split
  · exact Nat.succ_le_succ h.le
  · split
    · exact Nat.succ_le_succ h
    · exact longToken_le numbers h ch

theorem commentEnd_le (h : pos ≤ input.length) : commentEnd input pos ≤ input.length := by
  fun_induction commentEnd input pos with
  | case1 pos hlt hend => exact h
  | case2 pos hlt hend ih => exact ih hlt.le
  | case3 pos hlt => exact h

theorem skipBlank_le (h : pos ≤ input.length + 2) : skipBlank input pos ≤ input.length + 2 := by
  fun_induction skipBlank input pos with
  | case1 pos hlt hspace ih => exact ih (by omega)
  | case2 pos hlt hspace hcomment hend ih =>
    have hstar : pos + 1 < input.length := looksAt_lt (Bool.and_eq_true_iff.mp hcomment).2
    exact ih (Nat.add_le_add_right (commentEnd_le hstar) 2)
  | case3 pos hlt hspace hcomment => exact h
  | case4 pos hlt => exact h

/-- **The position** is never more than two behind the input. -/
theorem nextToken_le_end (numbers : NumberReader) (h : pos ≤ input.length + 2) :
    (cssNextToken input pos numbers).2 ≤ input.length + 2 := by
  unfold cssNextToken
  split
  · exact h
  · split
    · exact skipBlank_le h
    · rename_i ch hch
      have hlt : skipBlank input pos < input.length := (List.getElem?_eq_some_iff.mp hch).1
      exact (cssToken_le numbers hlt ch).trans (Nat.le_succ _)

end

/-! ### Safe calls -/

/-- A call of `css_next_token` at a position: it may go two behind the input, but reads nothing
there, and it goes on if it finds a token. -/
structure SafeCall (numbers : NumberReader) (input : Str) (pos : ℕ) : Prop where
  /-- Where it begins. -/
  begins : pos ≤ input.length + 2
  /-- Where it ends. -/
  ends : (cssNextToken input pos numbers).2 ≤ input.length + 2
  /-- It goes on. -/
  forward : (cssNextToken input pos numbers).1.isSome → pos < (cssNextToken input pos numbers).2
  /-- The functions that record what they read find the same token. -/
  finds : (nextTokenAt input numbers ⟨pos, []⟩).1 = (cssNextToken input pos numbers).1
  /-- They leave the same position. -/
  leaves : (nextTokenAt input numbers ⟨pos, []⟩).2.position = (cssNextToken input pos numbers).2
  /-- What they read is in the input. -/
  reads : ∀ i ∈ (nextTokenAt input numbers ⟨pos, []⟩).2.reads, i < input.length

section
variable {numbers : NumberReader} {input : Str} {pos : ℕ} {s s' : Loop × ℕ}

theorem safeCall (numbers : NumberReader) (h : pos ≤ input.length + 2) :
    SafeCall numbers input pos := by
  have hstart : Follows input ⟨pos, []⟩ pos := ⟨rfl, nofun⟩
  obtain ⟨hfinds, hfollows⟩ := nextTokenAt_agrees numbers hstart
  refine ⟨h, nextToken_le_end numbers h, fun hsome => ?_, hfinds, hfollows.position,
    hfollows.reads⟩
  cases hnext : cssNextToken input pos numbers with
  | mk token stop =>
    rw [hnext] at hsome
    obtain ⟨token, rfl⟩ := Option.isSome_iff_exists.mp hsome
    exact (nextToken_lt numbers hnext).1

/-- Every call in a run is safe. -/
theorem turns_safe (h : Turns numbers input s s') (hs : s.2 ≤ input.length + 2) :
    SafeCall numbers input s'.2 := by
  induction h with
  | refl => exact safeCall numbers hs
  | tail _ hturn ih =>
    obtain ⟨-, rfl⟩ := hturn
    exact safeCall numbers ih.ends

/-! ### The end -/

/-- How many loops there are around one, and the loop itself. -/
def Loop.rank : Loop → ℕ
  | .done _ => 0
  | .rules _ => 1
  | .atRule _ | .nested _ _ | .selector _ _ | .block _ _ => 2
  | .colon _ _ _ | .value _ _ _ _ => 3

theorem Loop.rank_le (loop : Loop) : loop.rank ≤ 3 := by
  cases loop <;> simp [Loop.rank]

/-- Without a token a loop ends. -/
theorem rank_none {loop : Loop} (h : loop.isDone = false) : (loop.step none).rank < loop.rank := by
  cases loop with
  | done sheet => cases h
  | rules sheet | atRule sheet | selector sheet rule | block sheet rule | colon sheet rule property
    | value sheet rule property text | nested sheet depth => exact Nat.lt_succ_self _

/-- What is left to be done. -/
def size (input : Str) (s : Loop × ℕ) : ℕ := 4 * (input.length - s.2) + s.1.rank

/-- **A turn** makes it smaller. -/
theorem turn_size (h : Turn numbers input s s') : size input s' < size input s := by
  obtain ⟨loop, pos⟩ := s
  obtain ⟨hloop, rfl⟩ := h
  unfold size
  cases hnext : cssNextToken input pos numbers with
  | mk token stop =>
    simp only
    cases token with
    | none =>
      have hrank : (loop.step none).rank < loop.rank := rank_none hloop
      have hle := nextToken_le numbers input hnext
      omega
    | some token =>
      obtain ⟨hlt, hpos⟩ := nextToken_lt numbers hnext
      have hrank := (loop.step (some token)).rank_le
      omega

/-- No run goes on for ever. -/
theorem turn_wf (numbers : NumberReader) (input : Str) :
    WellFounded fun s' s => Turn numbers input s s' :=
  Subrelation.wf turn_size (measure (size input)).wf

/-- There is one turn at most. -/
theorem turn_unique : Relator.RightUnique (Turn numbers input) := by
  rintro s s' s'' ⟨-, rfl⟩ ⟨-, rfl⟩
  rfl

/-- The parser makes no turn after it has returned. -/
theorem done_turns {sheet : CssStylesheet} (h : Turns numbers input (.done sheet, pos) s) :
    s = (.done sheet, pos) := by
  rcases Relation.ReflTransGen.cases_head h with rfl | ⟨_, ⟨hdone, -⟩, -⟩
  · rfl
  · cases hdone

/-- **The parser ends.** In every run each call of `css_next_token` is safe, no run goes on for
ever, and from wherever a run is it leads to the end, where the stylesheet is returned. -/
theorem css_parser_ends (numbers : NumberReader) (css : List UInt8) :
    (∀ s, Turns numbers (css.takeWhile (· != 0)) (.rules ⟨[]⟩, 0) s →
      SafeCall numbers (css.takeWhile (· != 0)) s.2) ∧
    (WellFounded fun s' s => Turn numbers (css.takeWhile (· != 0)) s s') ∧
    ∃ stop, ∀ s, Turns numbers (css.takeWhile (· != 0)) (.rules ⟨[]⟩, 0) s →
      Turns numbers (css.takeWhile (· != 0)) s (.done (cssParserParse numbers css), stop) := by
  refine ⟨fun s hs => turns_safe hs (Nat.zero_le _), turn_wf numbers _, ?_⟩
  obtain ⟨stop, hend⟩ := parse_turns numbers css
  refine ⟨stop, fun s hs => ?_⟩
  rcases Relation.ReflTransGen.total_of_right_unique turn_unique hs hend with hs | hs
  · exact hs
  · rw [done_turns hs]

end

end PrismaticOS.Css
