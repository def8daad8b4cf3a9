import Mathlib.Data.Int.Notation
import Mathlib.Data.List.Basic
import Mathlib.Logic.Function.Basic
import Mathlib.Order.Nat

/-!
# Exit handlers

`atexit`, `at_quick_exit` and `quick_exit` of `libc/src/stdlib/stdlib.c`: one table of 32 functions,
filled from the front and called from the back.

## The model

A handler does what it does to the world, `ω`, and may call `atexit` itself while `quick_exit` goes
through the table. `Handlers` gives, for each function and world, the calls of `atexit` the function
makes and the world it leaves.

## What is proved

* `quickExit_after_atexit` — which functions `quick_exit` calls, and in which order.

## Honest scope

A handler returns: one that calls `quick_exit` again, or `_exit`, is not in the model.
-/

namespace PrismaticOS.Libc

/-- `MAX_ATEXIT_HANDLERS`. -/
def maxAtexitHandlers : ℕ := 32

/-- `atexit_data`. -/
structure AtexitData (α : Type*) where
  /-- The functions; those from `count` on are not in use. -/
  handlers : ℕ → Option α
  /-- How many. -/
  count : ℕ
  /-- The array has no room for more. -/
  count_le : count ≤ maxAtexitHandlers

/-- `atexit_data` at the start. -/
def AtexitData.empty {α : Type*} : AtexitData α := ⟨fun _ => none, 0, Nat.zero_le _⟩

@[simp] theorem AtexitData.count_empty {α : Type*} : (empty : AtexitData α).count = 0 := rfl

/-- What the functions do when they are called: the functions they give to `atexit` in turn (which
may be `NULL`), and the world they leave. -/
abbrev Handlers (α ω : Type*) := α → ω → List (Option α) × ω

section
variable {α ω : Type*}

/-- `atexit`, and `at_quick_exit`. -/
def atexit (function : Option α) (d : AtexitData α) : ℤ × AtexitData α :=
  if h : d.count ≥ maxAtexitHandlers then (-1, d)
  else (0, ⟨Function.update d.handlers d.count function, d.count + 1, Nat.lt_of_not_le h⟩)

/-- Calls of `atexit` one after another: what they return, and the table. -/
def atexits : List (Option α) → AtexitData α → List ℤ × AtexitData α
  | [], d => ([], d)
  | f :: fs, d => ((atexit f d).1 :: (atexits fs (atexit f d).2).1, (atexits fs (atexit f d).2).2)

/-- A state of the process while it exits: the table, the world, and the functions called so far. -/
structure Exiting (α ω : Type*) where
  /-- `atexit_data`. -/
  data : AtexitData α
  /-- What else there is. -/
  world : ω
  /-- The functions called, in this order. -/
  called : List α

/-- `if (atexit_data.handlers[i]) atexit_data.handlers[i]();` -/
def callHandler (does : Handlers α ω) (i : ℕ) (s : Exiting α ω) : Exiting α ω :=
  match s.data.handlers i with
  | none => s
  | some f =>
    ⟨(atexits (does f s.world).1 s.data).2, (does f s.world).2, s.called ++ [f]⟩

/-- `for (int i = n - 1; i >= 0; i--)` with that body. -/
def callHandlers (does : Handlers α ω) : ℕ → Exiting α ω → Exiting α ω
  | 0, s => s
  | i + 1, s => callHandlers does i (callHandler does i s)

/-- `quick_exit`, up to `_exit`. -/
def quickExit (does : Handlers α ω) (d : AtexitData α) (w : ω) : Exiting α ω :=
  callHandlers does d.count ⟨d, w, []⟩

/-! ### The table -/

variable {d : AtexitData α} {s : Exiting α ω} {fs : List (Option α)} {does : Handlers α ω}
  {i n : ℕ}

/-- What `atexit` can do: nothing when the table is full, and add the function otherwise. -/
theorem atexit_cases (f : Option α) (d : AtexitData α) :
    (d.count = maxAtexitHandlers ∧ atexit f d = (-1, d)) ∨
      d.count < maxAtexitHandlers ∧ (atexit f d).1 = 0 ∧
        (atexit f d).2.count = d.count + 1 ∧
        (atexit f d).2.handlers = Function.update d.handlers d.count f := by
  by_cases h : d.count ≥ maxAtexitHandlers
  · exact .inl ⟨d.count_le.antisymm h, dif_pos h⟩
  · refine .inr ⟨Nat.lt_of_not_le h, ?_⟩
    rw [atexit, dif_neg h]
    exact ⟨rfl, rfl, rfl⟩

/-- What is in the table stays. -/
theorem atexits_handlers (hi : i < d.count) :
    (atexits fs d).2.handlers i = d.handlers i := by
  induction fs generalizing d with
  | nil => rfl
  | cons f fs ih =>
    rw [atexits]
    obtain ⟨-, hfull⟩ | ⟨-, -, hcount, hhandlers⟩ := atexit_cases f d
    · rw [hfull, ih hi]
    · rw [ih (by omega), hhandlers, Function.update_of_ne (by omega)]

/-- **A run of calls**: those that find room are in the table in their order, and return `0`; the
others return `-1`. -/
theorem atexits_eq (fs : List (Option α)) (d : AtexitData α) :
    (atexits fs d).2.count = min (d.count + fs.length) maxAtexitHandlers ∧
      (∀ i f, fs[i]? = some f → d.count + i < maxAtexitHandlers →
        (atexits fs d).2.handlers (d.count + i) = f) ∧
      (atexits fs d).1 = (List.range fs.length).map fun i =>
        if d.count + i < maxAtexitHandlers then 0 else -1 := by
  induction fs generalizing d with
  | nil => exact ⟨by simp [atexits, d.count_le], by simp, rfl⟩
  | cons f fs ih =>
    rw [atexits, List.length_cons, List.range_succ_eq_map, List.map_cons, List.map_map]
    obtain ⟨hfull, hsame⟩ | ⟨hroom, hret, hcount, hhandlers⟩ := atexit_cases f d
    · obtain ⟨hc, -, hr⟩ := ih d
      rw [hsame]
      refine ⟨by simp only [hc, hfull]; omega, fun i _ _ hi => by omega, ?_⟩
      rw [hr, if_neg (by omega)]
      refine congrArg _ (List.map_congr_left fun i _ => ?_)
      simp only [Function.comp_apply]
      rw [if_neg (by omega), if_neg (by omega)]
    · obtain ⟨hc, hh, hr⟩ := ih (atexit f d).2
      rw [hcount] at hc hh hr
      refine ⟨by simp only [hc]; omega, fun i f' hi hlt => ?_, ?_⟩
      · cases i with
        | zero =>
          rw [Nat.add_zero, atexits_handlers (by omega), hhandlers, Function.update_self]
          exact Option.some.inj hi
        | succ i =>
          have hlast := hh i f' hi (by omega)
          rwa [Nat.add_assoc, Nat.add_comm 1] at hlast
      · simp only [hret, hr, Nat.add_zero, if_pos hroom]
        refine congrArg _ (List.map_congr_left fun i _ => ?_)
        simp only [Function.comp_apply, Nat.succ_eq_add_one, Nat.add_assoc, Nat.add_comm 1]

/-! ### Going through it -/

theorem le_count_atexits (fs : List (Option α)) (d : AtexitData α) :
    d.count ≤ (atexits fs d).2.count := by
  rw [(atexits_eq fs d).1]
  exact le_min (Nat.le_add_right _ _) d.count_le

/-- One turn calls the function that is there, and leaves the table below alone. -/
theorem callHandler_spec (does : Handlers α ω) (i : ℕ) (s : Exiting α ω) :
    (callHandler does i s).called = s.called ++ (s.data.handlers i).toList ∧
      s.data.count ≤ (callHandler does i s).data.count ∧
      ∀ j < s.data.count, (callHandler does i s).data.handlers j = s.data.handlers j := by
  unfold callHandler
  split
  case h_1 hnone => simp [hnone]
  case h_2 f hsome =>
    refine ⟨by simp [hsome], le_count_atexits _ _, fun j hj => ?_⟩
    exact atexits_handlers hj

/-- **The loop** calls what the table holds when the loop starts, from the back, whatever the
functions add to the table while it runs. -/
theorem called_callHandlers (does : Handlers α ω) (hn : n ≤ s.data.count) :
    (callHandlers does n s).called =
      s.called ++ ((List.range n).reverse.filterMap s.data.handlers) := by
  induction n generalizing s with
  | zero => simp [callHandlers]
  | succ n ih =>
    obtain ⟨hcalled, hcount, hbelow⟩ := callHandler_spec does n s
    have hsame : (List.range n).reverse.filterMap (callHandler does n s).data.handlers =
        (List.range n).reverse.filterMap s.data.handlers := by
      refine List.filterMap_congr fun j hj => hbelow j ?_
      exact (List.mem_range.mp (List.mem_reverse.mp hj)).trans hn
    rw [callHandlers, ih (by omega), hcalled, hsame, List.range_succ, List.reverse_append,
      List.append_assoc]
    cases h : s.data.handlers n <;> simp [h]

/-- **`quick_exit` calls the handlers last in, first out**: the first 32 that were registered, with
`atexit` or `at_quick_exit`, without the `NULL` ones and those that handlers register while it
runs. -/
theorem quickExit_after_atexit (does : Handlers α ω) (fs : List (Option α)) (w : ω) :
    (quickExit does (atexits fs AtexitData.empty).2 w).called =
        ((fs.take maxAtexitHandlers).filterMap id).reverse ∧
      (atexits fs AtexitData.empty).1 = (List.range fs.length).map fun i =>
        if i < maxAtexitHandlers then 0 else -1 := by
  obtain ⟨hcount, hhandlers, hret⟩ := atexits_eq fs (AtexitData.empty : AtexitData α)
  simp only [AtexitData.count_empty, Nat.zero_add] at hcount hhandlers hret
  refine ⟨?_, hret⟩
  have htable : (List.range (min fs.length maxAtexitHandlers)).map
      (atexits fs AtexitData.empty).2.handlers = fs.take maxAtexitHandlers := by
    apply List.ext_getElem
    · simp [Nat.min_comm]
    · intro i h _
      have hi : i < fs.length ∧ i < maxAtexitHandlers := Nat.lt_min.mp (by simpa using h)
      simpa using hhandlers i _ (List.getElem?_eq_getElem hi.1) hi.2
  have hcalled := called_callHandlers does
    (show _ ≤ (⟨(atexits fs AtexitData.empty).2, w, []⟩ : Exiting α ω).data.count from le_rfl)
  rw [quickExit, hcalled, List.nil_append, ← List.filterMap_reverse, ← htable, ← List.map_reverse,
    List.filterMap_map, ← hcount]
  rfl

end

end PrismaticOS.Libc
