import Mathlib.Data.UInt
import PrismaticOS.Kernel.Console
import PrismaticOS.Libc.Printf

/-!
# Formatted output on the console

`console_printf` and `printk` of `kernel/console.c`.

## The model

A format is the bytes from the pointer on, its final zero and what is behind it in memory included,
and an argument is the eight bytes that `va_arg` takes for an integer or a pointer. `none` is the
outcome of a call that reads after the end of these, takes an argument that is not there, or stores
beyond the screen. What a turn of the loop prints does not depend on the console: it is some
characters, or what a conversion makes of its argument.

`printk` passes on its `va_list`. That is an array, so `console_printf` gets one argument more, the
address of it, and no others: what it takes for the arguments after that one is what the registers
and the stack happen to hold.

## What is proved

* `consoleItem_length` — a turn of the loop takes a part of the format, so the loop ends.
* `consolePrintf_eq` — the loop prints the items of the format one after the other.
* `printk_agrees` — `printk` agrees with `console_printf` where each conversion prints the same for
  what it takes there as for its argument, so always where no conversion takes one.
* `printk_prints_address` — `printk("%d", 5)`.
-/

namespace PrismaticOS.Kernel

open PrismaticOS.Library PrismaticOS.Libc

/-! ### Numbers -/

/-- The characters of `console_print_int`. -/
def consolePrintInt (value : Int32) (base : ℕ) : Str :=
  if value = 0 then [chr '0']
  else
    let negative := value < 0 ∧ base = 10
    let magnitude := if negative then -value else value
    (if negative then [chr '-'] else []) ++ writeDigits digitChar base magnitude.toInt.toNat []

/-- `"0123456789abcdef"[digit]`. -/
def hexDigit (digit : ℕ) : UInt8 := (str "0123456789abcdef").getD digit 0

/-- The characters of `console_print_uint`. -/
def consolePrintUint (value : UInt32) (base : ℕ) : Str :=
  if value = 0 then [chr '0'] else writeDigits hexDigit base value.toNat []

/-! ### The loop -/

/-- What one turn of the loop prints. -/
inductive ConsoleItem where
  /-- These characters. -/
  | text (chars : Str)
  /-- What the conversion makes of its argument. -/
  | conversion (print : UInt64 → Str)

/-- The `switch`, where `mem` is what is in memory at an address. -/
def switchItem (mem : UInt64 → Str) (c : UInt8) : ConsoleItem :=
  if c = chr 'c' then .conversion fun slot => [slot.toUInt32.toUInt8]
  else if c = chr 's' then .conversion fun slot => (mem slot).takeWhile (· != 0)
  else if c = chr 'd' then .conversion fun slot => consolePrintInt slot.toUInt32.toInt32 10
  else if c = chr 'u' then .conversion fun slot => consolePrintUint slot.toUInt32 10
  else if c = chr 'x' then .conversion fun slot => consolePrintUint slot.toUInt32 16
  else if c = chr 'p' then
    .conversion fun slot => str "0x" ++ consolePrintUint slot.toUInt32 16
  else if c = chr '%' then .text [chr '%']
  else .text [chr '%', c]

/-- The character after an `l`. The `long` is passed on as an `int` or a `uint32_t`. -/
def longItem (c : UInt8) : ConsoleItem :=
  if c = chr 'd' then .conversion fun slot => consolePrintInt slot.toUInt32.toInt32 10
  else if c = chr 'u' then .conversion fun slot => consolePrintUint slot.toUInt32 10
  else if c = chr 'x' then .conversion fun slot => consolePrintUint slot.toUInt32 16
  else .text []

/-- One turn of the loop of `console_printf`: what it prints, and the rest. -/
def consoleItem (mem : UInt64 → Str) (format : Str) : Option (ConsoleItem × Str) :=
  match format with
  | [] => none
  | c :: rest =>
    if c = chr '%' then
      match rest with
      | [] => none
      | c :: rest =>
        if c = chr 'l' then
          match rest with
          | [] => none
          | c :: rest => some (longItem c, rest)
        else some (switchItem mem c, rest)
    else some (.text [c], rest)

/-- A turn takes a part of the format. -/
theorem consoleItem_length {mem : UInt64 → Str} {format : Str} {r : ConsoleItem × Str}
    (h : consoleItem mem format = some r) : r.2.length < format.length := by
  unfold consoleItem at h
  split at h
  · cases h
  · split_ifs at h
    · split at h
      · cases h
      · split_ifs at h
        · split at h
          · cases h
          · cases h
            simp only [List.length_cons]
            omega
        · cases h
          simp only [List.length_cons]
          omega
    · cases h
      exact Nat.lt_succ_self _

/-- An item is printed, and the arguments that are left. -/
def ConsoleItem.put (item : ConsoleItem) (args : List UInt64) (s : Console) :
    Option (Console × List UInt64) :=
  match item with
  | .text chars => (chars.foldlM consolePutc s).map (·, args)
  | .conversion print =>
    args.head?.bind fun slot => ((print slot).foldlM consolePutc s).map (·, args.tail)

/-- `console_printf`. -/
def consolePrintf (mem : UInt64 → Str) (format : Str) (args : List UInt64) (s : Console) :
    Option Console :=
  if format.head? = some 0 then some s
  else
    match _ : consoleItem mem format with
    | none => none
    | some (item, rest) =>
      (item.put args s).bind fun (s, args) => consolePrintf mem rest args s
termination_by format.length
decreasing_by exact consoleItem_length (by assumption)

/-- What `console_printf` finds when `printk` calls it. -/
structure PrintkCall where
  /-- The address of the `va_list` of `printk`. -/
  args : UInt64
  /-- What is taken for the arguments after it. -/
  others : List UInt64

/-- `printk`. Nothing of its arguments is passed on but the address of where they are. -/
def printk (mem : UInt64 → Str) (call : PrintkCall) (format : Str) (_args : List UInt64)
    (s : Console) : Option Console :=
  consolePrintf mem format (call.args :: call.others) s

/-! ### The items of a format -/

/-- The items, one after the other. -/
def consoleItems (mem : UInt64 → Str) (format : Str) : Option (List ConsoleItem) :=
  if format.head? = some 0 then some []
  else
    match _ : consoleItem mem format with
    | none => none
    | some (item, rest) => (consoleItems mem rest).map (item :: ·)
termination_by format.length
decreasing_by exact consoleItem_length (by assumption)

/-- All items are printed. -/
def putItems : List ConsoleItem → List UInt64 → Console → Option Console
  | [], _, s => some s
  | item :: items, args, s => (item.put args s).bind fun (s, args) => putItems items args s

section
variable {mem : UInt64 → Str} {format rest : Str} {item : ConsoleItem} {args args' : List UInt64}

theorem consoleItems_end (h : format.head? = some 0) : consoleItems mem format = some [] := by
  rw [consoleItems, if_pos h]

theorem consoleItems_next (h : format.head? ≠ some 0) :
    consoleItems mem format =
      (consoleItem mem format).bind fun (item, rest) => (consoleItems mem rest).map (item :: ·) := by
  rw [consoleItems, if_neg h]
  split <;> simp only [*, Option.bind_none, Option.bind_some]

/-- **The loop prints the items.** -/
theorem consolePrintf_eq (mem : UInt64 → Str) (format : Str) (args : List UInt64) (s : Console) :
    consolePrintf mem format args s =
      (consoleItems mem format).bind fun items => putItems items args s := by
  fun_induction consolePrintf mem format args s with
  | case1 format args s hend =>
    rw [consoleItems_end hend]
    rfl
  | case2 format args s hend hitem =>
    rw [consoleItems_next hend, hitem]
    rfl
  | case3 format args s hend item rest hitem ih =>
    rw [consoleItems_next hend, hitem, Option.bind_some]
    dsimp only
    cases hput : item.put args s with
    | none =>
      cases consoleItems mem rest with
      | none => rfl
      | some items =>
        rw [Option.map_some, Option.bind_some, putItems, hput]
        rfl
    | some r =>
      rw [Option.bind_some, ih]
      cases consoleItems mem rest with
      | none => rfl
      | some items =>
        rw [Option.map_some, Option.bind_some, Option.bind_some, putItems, hput]
        rfl

/-! ### Arguments that are not the ones -/

/-- The conversions among the items. -/
def conversions (items : List ConsoleItem) : List (UInt64 → Str) :=
  items.filterMap fun
    | .text _ => none
    | .conversion print => some print

/-- The conversions of a format. -/
def formatConversions (mem : UInt64 → Str) (format : Str) : List (UInt64 → Str) :=
  conversions ((consoleItems mem format).getD [])

/-- Each conversion gets something, and prints for it what it prints for its argument. -/
def PrintsSame (prints : List (UInt64 → Str)) (args slots : List UInt64) : Prop :=
  ∀ (i : ℕ) (print : UInt64 → Str), prints[i]? = some print →
    ∃ arg slot, args[i]? = some arg ∧ slots[i]? = some slot ∧ print slot = print arg

/-- The first conversion, and those after it. -/
theorem PrintsSame.cons {print : UInt64 → Str} {prints : List (UInt64 → Str)}
    (h : PrintsSame (print :: prints) args args') :
    (∃ arg slot, args.head? = some arg ∧ args'.head? = some slot ∧ print slot = print arg) ∧
      PrintsSame prints args.tail args'.tail := by
  constructor
  · obtain ⟨arg, slot, harg, hslot, hprint⟩ := h 0 print rfl
    exact ⟨arg, slot, List.head?_eq_getElem? ▸ harg, List.head?_eq_getElem? ▸ hslot, hprint⟩
  · intro i print' hi
    obtain ⟨arg, slot, harg, hslot, hprint⟩ := h (i + 1) print' hi
    refine ⟨arg, slot, ?_, ?_, hprint⟩
    · rwa [List.getElem?_tail]
    · rwa [List.getElem?_tail]

/-- **Items that print the same** leave the console the same. -/
theorem putItems_congr {items : List ConsoleItem} (h : PrintsSame (conversions items) args args')
    (s : Console) : putItems items args' s = putItems items args s := by
  induction items generalizing args args' s with
  | nil => rfl
  | cons item items ih =>
    cases item with
    | text chars =>
      have hrest : PrintsSame (conversions items) args args' := h
      rw [putItems, putItems, ConsoleItem.put, ConsoleItem.put, Option.bind_map, Option.bind_map]
      exact Option.bind_congr fun s _ => ih hrest s
    | conversion print =>
      obtain ⟨⟨arg, slot, harg, hslot, hprint⟩, hrest⟩ := PrintsSame.cons h
      rw [putItems, putItems, ConsoleItem.put, ConsoleItem.put, harg, hslot, Option.bind_some,
        Option.bind_some, hprint, Option.bind_map, Option.bind_map]
      exact Option.bind_congr fun s _ => ih hrest s

/-- **`printk` agrees with `console_printf`** where each conversion prints for what it gets there
what it prints for its argument. -/
theorem printk_agrees (mem : UInt64 → Str) (call : PrintkCall) (format : Str) (args : List UInt64)
    (h : PrintsSame (formatConversions mem format) args (call.args :: call.others)) (s : Console) :
    printk mem call format args s = consolePrintf mem format args s := by
  rw [printk, consolePrintf_eq, consolePrintf_eq]
  unfold formatConversions at h
  cases hitems : consoleItems mem format with
  | none => rfl
  | some items =>
    rw [hitems] at h
    exact putItems_congr h s

/-- `"%d"` has one conversion. -/
theorem items_decimal (mem : UInt64 → Str) : consoleItems mem (str "%d" ++ [0]) =
    some [.conversion fun slot => consolePrintInt slot.toUInt32.toInt32 10] := by
  have hfirst : (str "%d" ++ [0]).head? ≠ some 0 := by decide
  rw [consoleItems_next hfirst]
  show (consoleItems mem [0]).map _ = _
  rw [consoleItems_end rfl]
  rfl

/-- A screen with nothing on it. -/
def emptyScreen : Console := ⟨fun _ => 0, 0, 0, 7⟩

/-- `printk("%d", 8)`, where the `va_list` happens to be at 2³² + 8. -/
theorem printk_agrees_decimal : printk (fun _ => []) ⟨2 ^ 32 + 8, []⟩ (str "%d" ++ [0]) [8] emptyScreen =
    consolePrintf (fun _ => []) (str "%d" ++ [0]) [8] emptyScreen := by
  refine printk_agrees _ _ _ _ ?_ emptyScreen
  rw [formatConversions, items_decimal]
  intro i print hi
  cases i with
  | zero =>
    obtain rfl := Option.some.inj hi
    exact ⟨8, 2 ^ 32 + 8, rfl, rfl, rfl⟩
  | succ i => cases hi

/-- `console_printf("%d", ..)`. -/
theorem consolePrintf_decimal (mem : UInt64 → Str) (slot : UInt64) (args : List UInt64) (s : Console) :
    consolePrintf mem (str "%d" ++ [0]) (slot :: args) s =
      (consolePrintInt slot.toUInt32.toInt32 10).foldlM consolePutc s := by
  rw [consolePrintf_eq, items_decimal, Option.bind_some, putItems, ConsoleItem.put, List.head?_cons,
    Option.bind_some, Option.bind_map]
  exact Option.bind_fun_some _

/-- **`printk("%d", 5)`** prints the address of the `va_list`. -/
theorem printk_prints_address : ¬ ∀ (mem : UInt64 → Str) (call : PrintkCall) (format : Str)
    (args : List UInt64) (s : Console),
      (formatConversions mem format).length ≤ args.length →
        printk mem call format args s = consolePrintf mem format args s := by
  intro hall
  have hargs : (formatConversions (fun _ => []) (str "%d" ++ [0])).length ≤ [(5 : UInt64)].length := by
    rw [formatConversions, items_decimal]
    rfl
  have hsame := hall (fun _ => []) ⟨2 ^ 32 + 8, []⟩ (str "%d" ++ [0]) [5] emptyScreen hargs
  have height : consolePrintInt 8 10 = [chr '8'] := by
    simp [consolePrintInt, writeDigits]
    decide
  have hfive : consolePrintInt 5 10 = [chr '5'] := by
    simp [consolePrintInt, writeDigits]
    decide
  have hcells := congrArg (Option.map fun s => s.buffer 0) hsame
  rw [printk, consolePrintf_decimal, consolePrintf_decimal,
    show (2 ^ 32 + 8 : UInt64).toUInt32.toInt32 = 8 by decide,
    show (5 : UInt64).toUInt32.toInt32 = 5 by decide, height, hfive] at hcells
  exact absurd hcells (by decide)

end

end PrismaticOS.Kernel
