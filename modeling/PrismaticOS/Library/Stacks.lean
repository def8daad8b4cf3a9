import Mathlib.Data.List.Basic

/-!
# Stacks

One element that is in use, and those that wait below it, the next one first. A stack is changed by
pushes, by pops, which give up the element in use, and by taking an element out of those that wait.

## What is proved

* `Stack.step_pop_nil` and `Stack.step_pop_cons` — what a pop leaves.
* `Stack.has_step` — a change puts nothing on the stack but what is pushed.
-/

namespace PrismaticOS.Library

variable {α : Type*}

/-- An element in use, and those below it. -/
structure Stack (α : Type*) where
  /-- The element in use. -/
  top : α
  /-- The elements that wait. -/
  below : List α

/-- A change of a stack. -/
inductive StackOp (α : Type*) where
  /-- Nothing. -/
  | stay
  /-- An element waits, and is the next one. -/
  | push (a : α)
  /-- The next element is used, if there is one. -/
  | pop
  /-- An element does not wait any more. -/
  | drop (a : α)

namespace Stack

/-- The element is in use or waits. -/
def Has (k : Stack α) (a : α) : Prop := a = k.top ∨ a ∈ k.below

/-- What a change does. -/
def step [DecidableEq α] (k : Stack α) : StackOp α → Stack α
  | .stay => k
  | .push a => { k with below := a :: k.below }
  | .pop =>
    match k.below with
    | [] => k
    | a :: rest => ⟨a, rest⟩
  | .drop a => { k with below := k.below.erase a }

/-- What some changes do. -/
def steps [DecidableEq α] (k : Stack α) (ops : List (StackOp α)) : Stack α := ops.foldl step k

variable [DecidableEq α] {k : Stack α} {a b : α} {ops : List (StackOp α)}

/-- A pop with nothing below. -/
theorem step_pop_nil (h : k.below = []) : k.step .pop = k := by
  rw [step, h]

theorem step_pop_cons {rest : List α} (h : k.below = a :: rest) : k.step .pop = ⟨a, rest⟩ := by
  rw [step, h]

/-- **A change** puts nothing on the stack but what is pushed. -/
theorem has_step {op : StackOp α} (h : (k.step op).Has a) : k.Has a ∨ op = .push a := by
  cases op with
  | stay => exact .inl h
  | push b =>
    rcases h with htop | hbelow
    · exact .inl (.inl htop)
    · rcases List.mem_cons.mp hbelow with rfl | hmem
      · exact .inr rfl
      · exact .inl (.inr hmem)
  | pop =>
    cases hbelow : k.below with
    | nil =>
      rw [step_pop_nil hbelow] at h
      exact .inl h
    | cons b rest =>
      rw [step_pop_cons hbelow] at h
      refine .inl (.inr ?_)
      rw [hbelow]
      exact List.mem_cons.mpr h
  | drop b => exact .inl (h.imp id List.mem_of_mem_erase)

end Stack

end PrismaticOS.Library
