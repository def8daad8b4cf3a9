import PrismaticOS.Libc.IntConversions

/-!
# The buffer of `format_int`

What `format_int` reads and writes through `ptr`, one access after the other.

## The model

The cells are numbered from the start of the local buffer: it is the cells 0 to 63, and the others
are what is before and behind it on the stack. `while (*ptr)` ends at a zero only, so it gets the
number of turns that are looked at. The events of a call are its accesses and the characters it
passes to `buffer_putc`, in order.

## What is proved

* `storeInt_written` — the text is at the end of the buffer.
* `access_outside` — it has no zero, so the last loop comes to the cell behind the buffer.
* `format_int_out_of_bounds` — no call stays in the buffer.
* `format_int_prints` — where there is enough room in front, the characters that are passed to
  `buffer_putc` are those of `formatInt`.
-/

namespace PrismaticOS.Libc

open PrismaticOS.Library

/-! ### The accesses -/

/-- What happens in a call of `format_int`. -/
inductive IntEvent where
  /-- `*ptr` is read. -/
  | read (i : ℤ)
  /-- `*ptr` is written. -/
  | write (i : ℤ)
  /-- `buffer_putc`. -/
  | putc (c : UInt8)
  deriving DecidableEq

/-- The variables of `format_int`, but for `count`. -/
structure IntState where
  /-- The cells around `buffer`. -/
  cells : ℤ → UInt8
  /-- `ptr`. -/
  ptr : ℤ
  /-- What has happened. -/
  events : List IntEvent

namespace IntState

/-- `*--ptr = c`. -/
def store (s : IntState) (c : UInt8) : IntState :=
  { cells := Function.update s.cells (s.ptr - 1) c
    ptr := s.ptr - 1
    events := s.events ++ [.write (s.ptr - 1)] }

/-- `buffer_putc(buf, c)`. -/
def putc (s : IntState) (c : UInt8) : IntState := { s with events := s.events ++ [.putc c] }

/-- `buffer_putc(buf, *ptr++)`. -/
def putNext (s : IntState) : IntState :=
  { s with ptr := s.ptr + 1, events := s.events ++ [.read s.ptr, .putc (s.cells s.ptr)] }

/-- The digits of a value, as long as there are any. -/
def storeDigits (base n : ℕ) (s : IntState) : IntState :=
  if 0 < n ∧ 1 < base then storeDigits base (n / base) (s.store (digitChar (n % base))) else s
termination_by n
decreasing_by
  rename_i h
  exact Nat.div_lt_self h.1 h.2

/-- `while (*ptr) buffer_putc(buf, *ptr++)`, for so many turns. -/
def outputLoop : ℕ → IntState → IntState
  | 0, s => s
  | turns + 1, s =>
    let s := { s with events := s.events ++ [.read s.ptr] }
    if s.cells s.ptr = 0 then s else outputLoop turns s.putNext

end IntState

/-- `format_int` up to the width: the digits, the sign and the zeros are written. -/
def storeInt (cells : ℤ → UInt8) (value : Int64) (base : ℕ) (precision : Int32) (flags : UInt32) :
    IntState :=
  let s : IntState := ⟨cells, 64, []⟩
  let negative := value < 0 ∧ base = 10
  let magnitude := if negative then -value else value
  let s := if magnitude = 0 then s.store (chr '0') else s.storeDigits base magnitude.toInt.toNat
  let s :=
    if negative then s.store (chr '-') else if flags &&& 1 ≠ 0 then s.store (chr '+')
    else if flags &&& 2 ≠ 0 then s.store (chr ' ') else s
  -- `count` is the number of cells that are written
  (fun s => s.store (chr '0'))^[(precision.toInt - (64 - s.ptr)).toNat] s

/-- `format_int` up to the last loop: the field is filled up. -/
def padInt (width : Int32) (flags : UInt32) (s : IntState) : IntState :=
  (fun s => if flags &&& 4 ≠ 0 then s.putNext else s.putc (chr ' '))^[
    (width.toInt - (64 - s.ptr)).toNat] s

/-- `format_int`, with so many turns of the last loop. -/
def formatIntRun (turns : ℕ) (cells : ℤ → UInt8) (value : Int64) (base : ℕ)
    (width precision : Int32) (flags : UInt32) : IntState :=
  (padInt width flags (storeInt cells value base precision flags)).outputLoop turns

/-- The cell that an event accesses is one of the buffer. -/
def IntEvent.InBuffer : IntEvent → Prop
  | .read i | .write i => 0 ≤ i ∧ i ≤ 63
  | .putc _ => True

/-- Every access is one to the buffer, however many turns of the last loop are looked at. -/
def InBuffer (cells : ℤ → UInt8) (value : Int64) (base : ℕ) (width precision : Int32)
    (flags : UInt32) : Prop :=
  ∀ turns, ∀ e ∈ (formatIntRun turns cells value base width precision flags).events, e.InBuffer

section
variable {cells : ℤ → UInt8} {s : IntState} {text : Str} {value : Int64} {base : ℕ}
  {width precision : Int32} {flags : UInt32} {turns : ℕ}

/-! ### What is written -/

/-- The text is at the end of the buffer, written from its end on, and nothing else was done. -/
structure Written (cells : ℤ → UInt8) (s : IntState) (text : Str) : Prop where
  /-- Where it begins. -/
  ptr : s.ptr = 64 - text.length
  /-- Its characters. -/
  stored : ∀ j : ℕ, j < text.length → some (s.cells (s.ptr + j)) = text[j]?
  /-- What is behind the buffer. -/
  behind : ∀ i, 64 ≤ i → s.cells i = cells i
  /-- The events. -/
  events : s.events = (List.range text.length).map fun k => .write (63 - k)

theorem written_nil (cells : ℤ → UInt8) : Written cells ⟨cells, 64, []⟩ [] where
  ptr := rfl
  stored _ h := absurd h (Nat.not_lt_zero _)
  behind _ _ := rfl
  events := rfl

/-- One more character is written. -/
theorem Written.store (h : Written cells s text) (c : UInt8) :
    Written cells (s.store c) (c :: text) := by
  have hptr : s.ptr - 1 = 64 - ((c :: text).length : ℕ) := by
    rw [h.ptr, List.length_cons]
    omega
  refine ⟨hptr, fun j hj => ?_, fun i hi => ?_, ?_⟩
  · show some (Function.update s.cells (s.ptr - 1) c (s.ptr - 1 + j)) = (c :: text)[j]?
    cases j with
    | zero => simp
    | succ j =>
      rw [Function.update_of_ne (by omega), List.getElem?_cons_succ, ← h.stored j (by simpa using hj)]
      congr 2
      omega
  · show Function.update s.cells (s.ptr - 1) c i = cells i
    rw [Function.update_of_ne (by rw [h.ptr]; omega), h.behind i hi]
  · show s.events ++ [.write (s.ptr - 1)] = _
    rw [h.events, List.length_cons, List.range_succ, List.map_append, h.ptr]
    congr 3
    omega

theorem Written.storeDigits (h : Written cells s text) (base n : ℕ) :
    Written cells (s.storeDigits base n) (writeDigits digitChar base n text) := by
  induction n using Nat.strong_induction_on generalizing s text with
  | _ n ih =>
    rw [IntState.storeDigits, writeDigits]
    split_ifs with hn
    · exact ih (n / base) (Nat.div_lt_self hn.1 hn.2) (h.store _)
    · exact h

/-- The zeros of the precision. -/
theorem Written.zeros (h : Written cells s text) (n : ℕ) :
    Written cells ((fun s => s.store (chr '0'))^[n] s) (List.replicate n (chr '0') ++ text) := by
  induction n with
  | zero => exact h
  | succ n ih =>
    rw [Function.iterate_succ_apply', List.replicate_succ, List.cons_append]
    exact ih.store _

/-- **What is written**: the cells of the text. -/
theorem storeInt_written (cells : ℤ → UInt8) (value : Int64) (base : ℕ) (precision : Int32)
    (flags : UInt32) :
    Written cells (storeInt cells value base precision flags)
      (intCells value base precision flags) := by
  unfold storeInt intCells
  dsimp only
  generalize (if value < 0 ∧ base = 10 then -value else value) = magnitude
  -- the digits
  have hdigits : Written cells
      (if magnitude = 0 then IntState.store ⟨cells, 64, []⟩ (chr '0')
        else IntState.storeDigits base magnitude.toInt.toNat ⟨cells, 64, []⟩)
      (if magnitude = 0 then [chr '0'] else writeDigits digitChar base magnitude.toInt.toNat []) := by
    split_ifs
    · exact (written_nil cells).store _
    · exact (written_nil cells).storeDigits _ _
  revert hdigits
  generalize (if magnitude = 0 then IntState.store ⟨cells, 64, []⟩ (chr '0')
    else IntState.storeDigits base magnitude.toInt.toNat ⟨cells, 64, []⟩) = s
  generalize (if magnitude = 0 then [chr '0']
    else writeDigits digitChar base magnitude.toInt.toNat []) = digits
  intro hdigits
  -- the sign
  have hsign : Written cells
      (if value < 0 ∧ base = 10 then s.store (chr '-') else if flags &&& 1 ≠ 0 then s.store (chr '+')
        else if flags &&& 2 ≠ 0 then s.store (chr ' ') else s)
      ((if value < 0 ∧ base = 10 then [chr '-'] else if flags &&& 1 ≠ 0 then [chr '+']
        else if flags &&& 2 ≠ 0 then [chr ' '] else []) ++ digits) := by
    split_ifs
    · exact hdigits.store _
    · exact hdigits.store _
    · exact hdigits.store _
    · exact hdigits
  rw [hsign.ptr, sub_sub_cancel]
  exact hsign.zeros _

/-! ### What is read -/

/-- Characters from `ptr` on are passed to `buffer_putc`. -/
theorem putNext_iterate (n : ℕ) (s : IntState) :
    IntState.putNext^[n] s =
      { s with
        ptr := s.ptr + n
        events := s.events ++ (List.range n).flatMap fun k =>
          [.read (s.ptr + k), .putc (s.cells (s.ptr + k))] } := by
  induction n with
  | zero => simp
  | succ n ih =>
    rw [Function.iterate_succ_apply', ih, IntState.putNext, List.range_succ, List.flatMap_append]
    simp [add_assoc]

/-- The field is filled with spaces. -/
theorem putc_iterate (n : ℕ) (c : UInt8) (s : IntState) :
    (fun s => IntState.putc s c)^[n] s =
      { s with events := s.events ++ List.replicate n (.putc c) } := by
  induction n with
  | zero => simp
  | succ n ih =>
    rw [Function.iterate_succ_apply', ih, IntState.putc, List.replicate_succ', List.append_assoc]

/-- **The last loop** comes to the end of the buffer where there is no zero before it. -/
theorem outputLoop_reads {r : ℕ} (hptr : s.ptr + r = 64)
    (hne : ∀ j : ℕ, j < r → s.cells (s.ptr + j) ≠ 0) :
    .read 64 ∈ (s.outputLoop (r + 1)).events := by
  induction r generalizing s with
  | zero =>
    rw [IntState.outputLoop]
    dsimp only
    have h64 : s.ptr = 64 := by simpa using hptr
    split_ifs
    · simp [h64]
    · rw [IntState.outputLoop, IntState.putNext]
      simp [h64]
  | succ r ih =>
    have hfirst := hne 0 (Nat.succ_pos r)
    rw [Nat.cast_zero, add_zero] at hfirst
    rw [IntState.outputLoop]
    dsimp only
    rw [if_neg hfirst]
    refine ih ?_ fun j hj => ?_
    · show s.ptr + 1 + r = 64
      push_cast at hptr
      omega
    · have hnext := hne (j + 1) (by omega)
      show s.cells (s.ptr + 1 + j) ≠ 0
      rwa [add_assoc, add_comm 1, ← Nat.cast_succ]

/-- What the padding does with `ptr`, and that it only adds to the events. -/
theorem padInt_eq (width : Int32) (flags : UInt32) (s : IntState) :
    ∃ events, padInt width flags s =
      { s with
        ptr := if flags &&& 4 ≠ 0 then s.ptr + (width.toInt - (64 - s.ptr)).toNat else s.ptr
        events := s.events ++ events } ∧
      (flags &&& 4 ≠ 0 → ∀ k < (width.toInt - (64 - s.ptr)).toNat, .read (s.ptr + k) ∈ events) := by
  unfold padInt
  by_cases hleft : flags &&& 4 ≠ 0
  · simp only [if_pos hleft]
    refine ⟨_, putNext_iterate _ s, fun _ k hk => ?_⟩
    exact List.mem_flatMap.mpr ⟨k, List.mem_range.mpr hk, List.mem_cons_self⟩
  · simp only [if_neg hleft]
    exact ⟨_, putc_iterate _ (chr ' ') s, fun h => absurd h hleft⟩

/-- **An access outside the buffer**: to the cell behind it, or to the one before it where the text
is longer than the buffer. -/
theorem access_outside (cells : ℤ → UInt8) (value : Int64) (hbase : 1 < base) (hle : base ≤ 16)
    (width precision : Int32) (flags : UInt32) :
    ∃ turns, .read 64 ∈ (formatIntRun turns cells value base width precision flags).events ∨
      .write (-1) ∈ (formatIntRun turns cells value base width precision flags).events := by
  have hwritten := storeInt_written cells value base precision flags
  have hzero := zero_notMem_intCells value hbase hle precision flags
  unfold formatIntRun
  generalize storeInt cells value base precision flags = s at hwritten
  generalize intCells value base precision flags = text at hwritten hzero
  obtain ⟨events, hpad, hreads⟩ := padInt_eq width flags s
  by_cases hlong : 64 < text.length
  · -- the text does not fit
    refine ⟨0, .inr ?_⟩
    rw [IntState.outputLoop, hpad, hwritten.events]
    refine List.mem_append_left _ (List.mem_map.mpr ⟨64, List.mem_range.mpr hlong, rfl⟩)
  have hptr := hwritten.ptr
  by_cases hfar : flags &&& 4 ≠ 0 ∧ text.length < (width.toInt - (64 - s.ptr)).toNat
  · -- the padding reads it
    refine ⟨0, .inl ?_⟩
    have hread := hreads hfar.1 text.length hfar.2
    rw [hptr, sub_add_cancel] at hread
    rw [IntState.outputLoop, hpad]
    exact List.mem_append_right _ hread
  · -- the last loop comes to it
    obtain ⟨m, hm, hmoved⟩ : ∃ m : ℕ, m ≤ text.length ∧ (padInt width flags s).ptr = s.ptr + m := by
      rw [hpad]
      by_cases hleft : flags &&& 4 ≠ 0
      · exact ⟨_, Nat.le_of_not_lt fun h => hfar ⟨hleft, h⟩, if_pos hleft⟩
      · exact ⟨0, Nat.zero_le _, (if_neg hleft).trans (by simp)⟩
    have hcells : (padInt width flags s).cells = s.cells := by rw [hpad]
    refine ⟨text.length - m + 1, .inl (outputLoop_reads ?_ fun j hj hnul => hzero ?_)⟩
    · rw [hmoved, hptr]
      omega
    · have hstored := hwritten.stored (m + j) (by omega)
      rw [hcells, hmoved, add_assoc, ← Nat.cast_add] at hnul
      rw [hnul] at hstored
      exact List.mem_of_getElem? hstored.symm

/-- **No call stays in the buffer.** -/
theorem format_int_out_of_bounds (cells : ℤ → UInt8) (value : Int64)
    (hbase : base = 8 ∨ base = 10 ∨ base = 16) (width precision : Int32) (flags : UInt32) :
    ¬ InBuffer cells value base width precision flags := by
  intro h
  have hone : 1 < base := by omega
  have hle : base ≤ 16 := by omega
  obtain ⟨turns, hread | hwrite⟩ := access_outside cells value hone hle width precision flags
  · exact absurd (h turns _ hread).2 (by decide)
  · exact absurd (h turns _ hwrite).1 (by decide)

/-- `printf("%d", 0)` with zeros on the stack. -/
theorem format_int_zero_out : ¬ InBuffer (fun _ => 0) 0 10 0 (-1) 0 :=
  format_int_out_of_bounds (fun _ => 0) 0 (by decide) 0 (-1) 0

/-- **The cell behind the buffer** is read for `printf("%d", 0)`. -/
theorem format_int_reads_behind : ¬ ∀ (cells : ℤ → UInt8) (value : Int64) (base : ℕ)
    (width precision : Int32) (flags : UInt32), base = 8 ∨ base = 10 ∨ base = 16 →
      InBuffer cells value base width precision flags := by
  intro hall
  obtain ⟨turns, hread | hwrite⟩ :=
    access_outside (fun _ => 0) 0 (show 1 < 10 by decide) (by decide) 0 (-1) 0
  · exact absurd (hall _ 0 10 0 (-1) 0 (by decide) turns _ hread).2 (by decide)
  · exact absurd (hall _ 0 10 0 (-1) 0 (by decide) turns _ hwrite).1 (by decide)

/-! ### What is printed -/

/-- The characters that are passed to `buffer_putc`. -/
def putChars (events : List IntEvent) : Str :=
  events.filterMap fun
    | .putc c => some c
    | _ => none

theorem putChars_append (events events' : List IntEvent) :
    putChars (events ++ events') = putChars events ++ putChars events' := List.filterMap_append

/-- The cells from `ptr` on are those of a list. -/
def IntState.Shows (s : IntState) (l : Str) : Prop :=
  ∀ j : ℕ, j < l.length → some (s.cells (s.ptr + j)) = l[j]?

theorem IntState.Shows.head {c : UInt8} {l : Str} (h : s.Shows (c :: l)) : s.cells s.ptr = c := by
  have hfirst := h 0 (Nat.succ_pos _)
  simpa using hfirst

theorem IntState.Shows.next {c : UInt8} {l : Str} (h : s.Shows (c :: l)) : s.putNext.Shows l := by
  intro j hj
  have hnext := h (j + 1) (by simpa using hj)
  rw [List.getElem?_cons_succ, Nat.cast_succ, add_comm (j : ℤ) 1, ← add_assoc] at hnext
  exact hnext

/-- The last loop prints up to the first zero. -/
theorem outputLoop_prints {l : Str} (h : s.Shows l) (hzero : 0 ∈ l) :
    ∃ turns, putChars (s.outputLoop turns).events =
      putChars s.events ++ l.takeWhile (· != 0) := by
  induction l generalizing s with
  | nil => cases hzero
  | cons c l ih =>
    by_cases hc : c = 0
    · refine ⟨1, ?_⟩
      rw [IntState.outputLoop, if_pos (h.head.trans hc), putChars_append]
      simp [putChars, hc]
    · have hnext : (IntState.putNext { s with events := s.events ++ [.read s.ptr] }).Shows l := h.next
      obtain ⟨turns, hturns⟩ := ih hnext ((List.mem_cons.mp hzero).resolve_left (Ne.symm hc))
      have hcell : ¬ s.cells s.ptr = 0 := by
        rw [h.head]
        exact hc
      refine ⟨turns + 1, ?_⟩
      rw [IntState.outputLoop, if_neg hcell, hturns, IntState.putNext]
      simp [putChars, h.head, hc]

theorem untilZero_some {l u : Str} (h : untilZero l = some u) : 0 ∈ l ∧ l.takeWhile (· != 0) = u := by
  unfold untilZero at h
  split_ifs at h with hzero
  exact ⟨hzero, Option.some.inj h⟩

/-- The padding from the cells prints them. -/
theorem putNext_prints {l : Str} {m : ℕ} (h : s.Shows l) (hm : m ≤ l.length) :
    (IntState.putNext^[m] s).Shows (l.drop m) ∧
      putChars (IntState.putNext^[m] s).events = putChars s.events ++ l.take m := by
  induction m with
  | zero => simpa using h
  | succ m ih =>
    obtain ⟨hshows, hputs⟩ := ih (Nat.le_of_succ_le hm)
    rw [List.drop_eq_getElem_cons hm] at hshows
    rw [Function.iterate_succ_apply']
    refine ⟨hshows.next, ?_⟩
    rw [IntState.putNext, putChars_append, hputs, hshows.head, List.append_assoc,
      List.take_add_one, List.getElem?_eq_getElem hm]
    rfl

/-- **What `format_int` prints**: where there is room for the text in the buffer, and the list is
what is in memory behind it, the characters are those of `formatInt`. -/
theorem format_int_prints {behind text : Str} (hbase : 1 < base) (hle : base ≤ 16)
    (hbehind : ∀ j : ℕ, j < behind.length → some (cells (64 + j)) = behind[j]?)
    (h : formatInt value base width precision flags behind = some text) :
    ∃ turns, putChars (formatIntRun turns cells value base width precision flags).events = text := by
  have hwritten := storeInt_written cells value base precision flags
  have hzero := zero_notMem_intCells value hbase hle precision flags
  unfold formatIntRun padInt
  unfold formatInt at h
  dsimp only at h
  generalize storeInt cells value base precision flags = s at hwritten
  generalize intCells value base precision flags = digits at hwritten hzero h
  have hmissing : (width.toInt - (64 - s.ptr)).toNat = (width.toInt - digits.length).toNat := by
    rw [hwritten.ptr, sub_sub_cancel]
  have hshows : s.Shows (digits ++ behind) := by
    intro j hj
    rw [List.getElem?_append]
    split_ifs with hlt
    · exact hwritten.stored j hlt
    · rw [hwritten.ptr, hwritten.behind _ (by omega), ← hbehind (j - digits.length) ?_]
      · congr 2
        omega
      · rw [List.length_append] at hj
        omega
  have hnone : putChars s.events = [] := by
    rw [hwritten.events, putChars, List.filterMap_map, List.filterMap_eq_nil_iff]
    exact fun _ _ => rfl
  rw [hmissing]
  generalize (width.toInt - digits.length).toNat = m at h
  split_ifs at h with hlong hleft hfar
  · -- the padding is taken from the cells
    obtain ⟨u, hu, rfl⟩ := Option.map_eq_some_iff.mp h
    obtain ⟨hmem, rfl⟩ := untilZero_some hu
    obtain ⟨hdrop, htake⟩ := putNext_prints hshows (Nat.le_of_not_lt hfar)
    obtain ⟨turns, hturns⟩ := outputLoop_prints hdrop hmem
    refine ⟨turns, ?_⟩
    simp only [if_pos hleft]
    rw [hturns, htake, hnone, List.nil_append]
  · -- it is spaces
    obtain ⟨u, hu, rfl⟩ := Option.map_eq_some_iff.mp h
    obtain ⟨hmem, rfl⟩ := untilZero_some hu
    simp only [if_neg hleft, putc_iterate]
    have hspaces : putChars (s.events ++ List.replicate m (.putc (chr ' '))) =
        List.replicate m (chr ' ') := by
      rw [putChars_append, hnone, List.nil_append]
      exact List.filterMap_replicate_of_some rfl
    have hpadded : IntState.Shows { s with events := s.events ++ List.replicate m (.putc (chr ' ')) }
        (digits ++ behind) := hshows
    obtain ⟨turns, hturns⟩ := outputLoop_prints hpadded hmem
    exact ⟨turns, by rw [hturns, hspaces]⟩

end

end PrismaticOS.Libc
