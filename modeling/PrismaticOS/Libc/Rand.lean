import Mathlib.Logic.Function.Iterate
import PrismaticOS.Library.Congruential

/-!
# `rand`, `srand` and `rand_r`

The random numbers of `libc/src/stdlib/stdlib.c`: a linear congruential generator. `rand` keeps it
in the 64 bits of a static `unsigned long`, `rand_r` in the 32 bits of an `unsigned int` of its
caller, and both return fifteen of its bits.

## The model

`rand` and `randR` return the value and the new state. `Generators` is a program's view of them, the
static one and one for each variable the program gives to `rand_r`; `returned` is what the calls of
a run return, in any order of the calls.

## What is proved

* `randR_toUInt32` — `rand_r` keeps the low half of what `rand` keeps and returns the same.
* `rand_state_cycle` — `next` goes through all its values.
* `rand_values` — the period of the values, and how often each is returned.
* `random_streams` — which values the calls return when they are interleaved.
-/

namespace PrismaticOS.Libc

open PrismaticOS.Library

/-- `rand`: what it returns, and `next`. -/
def rand (next : UInt64) : Int32 × UInt64 :=
  let next := next * 1103515245 + 12345
  (((next / 65536).toUInt32 % 32768).toInt32, next)

/-- `srand`: `next`. -/
def srand (seed : UInt32) : UInt64 := seed.toUInt64

/-- `rand_r`: what it returns, and `*seed`. -/
def randR (seed : UInt32) : Int32 × UInt32 :=
  let nextVal := seed.toUInt64
  let nextVal := nextVal * 1103515245 + 12345
  (((nextVal / 65536).toUInt32 % 32768).toInt32, nextVal.toUInt32)

/-- `next` after some calls of `rand`. -/
def randState (next : UInt64) (n : ℕ) : UInt64 := (fun next => (rand next).2)^[n] next

/-- What `rand` returns after some calls of it. -/
def randStream (next : UInt64) (n : ℕ) : Int32 := (rand (randState next n)).1

/-! ### The sequence -/

variable {next : UInt64} {n : ℕ}

theorem randState_succ (next : UInt64) (n : ℕ) :
    randState next (n + 1) = randState (rand next).2 n := Function.iterate_succ_apply _ n next

theorem randState_succ' (next : UInt64) (n : ℕ) :
    randState next (n + 1) = (rand (randState next n)).2 := Function.iterate_succ_apply' _ n next

theorem randStream_succ (next : UInt64) (n : ℕ) :
    randStream next (n + 1) = randStream (rand next).2 n := by
  rw [randStream, randState_succ, randStream]

theorem toNat_rand (next : UInt64) :
    (rand next).2.toNat = (next.toNat * 1103515245 + 12345) % 2 ^ 64 := by
  simp [rand]

/-- The states are a congruential sequence. -/
theorem randState_congruential (next : UInt64) :
    IsCongruential 1103515245 12345 (2 ^ 64) fun n => (randState next n).toNat := by
  intro n
  simp only [randState_succ', toNat_rand]
  rw [Nat.mul_comm]
  exact Nat.mod_modEq _ _

/-- The value a state gives: fifteen of its bits. -/
theorem toInt_rand (next : UInt64) :
    (rand next).1.toInt = ((rand next).2.toNat % 2 ^ 31 / 2 ^ 16 : ℕ) := by
  have hsmall : ∀ u : UInt32, u.toNat < 2 ^ 31 → u.toInt32.toInt = u.toNat := by
    intro u hu
    exact BitVec.toInt_eq_toNat_of_lt (by simpa using (by omega : 2 * u.toNat < 2 ^ 32))
  rw [rand, hsmall _ (by simp; omega)]
  simp only [UInt32.toNat_mod, UInt64.toNat_toUInt32, UInt64.toNat_div, UInt32.reduceToNat,
    UInt64.reduceToNat]
  omega

/-- **`rand_r` keeps the low half** of what `rand` keeps, and returns the same. -/
theorem randR_toUInt32 (next : UInt64) :
    randR next.toUInt32 = ((rand next).1, (rand next).2.toUInt32) := by
  have hlow : (rand next.toUInt32.toUInt64).2.toNat ≡ (rand next).2.toNat [MOD 2 ^ 32] := by
    simp [rand, Nat.ModEq]
    omega
  apply Prod.ext
  · show (rand next.toUInt32.toUInt64).1 = (rand next).1
    rw [← Int32.toInt_inj, toInt_rand, toInt_rand, hlow.of_dvd (pow_dvd_pow 2 (by omega))]
  · show (rand next.toUInt32.toUInt64).2.toUInt32 = (rand next).2.toUInt32
    rw [← UInt32.toNat_inj, UInt64.toNat_toUInt32, UInt64.toNat_toUInt32]
    exact hlow

/-! ### Many calls -/

/-- **All states in one cycle**: `next` is what it was after the multiples of `2 ^ 64` calls only,
and until then it takes every value. -/
theorem rand_state_cycle (next : UInt64) :
    (∀ n p, randState next (n + p) = randState next n ↔ 2 ^ 64 ∣ p) ∧
      ∀ state, ∃ n < 2 ^ 64, randState next n = state := by
  have hseq := randState_congruential next
  refine ⟨fun n p => ?_, fun state => ?_⟩
  · rw [← hseq.recurs_iff rfl rfl n p, ← UInt64.toNat_inj, Nat.ModEq,
      Nat.mod_eq_of_lt (UInt64.toNat_lt _), Nat.mod_eq_of_lt (UInt64.toNat_lt _)]
  · have hall := hseq.image_eq rfl rfl 0
    have hmem : state.toNat ∈ Finset.range (2 ^ 64) := Finset.mem_range.mpr state.toNat_lt
    rw [← hall, Finset.mem_image] at hmem
    obtain ⟨n, hn, heq⟩ := hmem
    refine ⟨n, Finset.mem_range.mp hn, UInt64.toNat_inj.mp ?_⟩
    rw [← heq, Nat.zero_add, Nat.mod_eq_of_lt (UInt64.toNat_lt _)]

/-- **The values of `rand`**: from every state they repeat after the multiples of `2 ^ 31` calls
only, and `2 ^ 31` calls in a row return each number up to `RAND_MAX` equally often, and no
other. -/
theorem rand_values (next : UInt64) :
    (∀ p, (∀ n, randStream next (n + p) = randStream next n) ↔ 2 ^ 31 ∣ p) ∧
      (∀ n, 0 ≤ (randStream next n).toInt ∧ (randStream next n).toInt ≤ 32767) ∧
      ∀ v : ℕ, v ≤ 32767 → ∀ n,
        ((Finset.range (2 ^ 31)).filter fun i => (randStream next (n + i)).toInt = v).card =
          2 ^ 16 := by
  have hseq : IsCongruential 1103515245 12345 (2 ^ 31) fun n => (randState next (n + 1)).toNat := by
    have h := ((randState_congruential next).of_dvd (d := 2 ^ 31) (pow_dvd_pow 2 (by omega))).drop 1
    simpa only [Nat.add_comm] using h
  have hvalue : ∀ n, (randStream next n).toInt =
      ((randState next (n + 1)).toNat % 2 ^ 31 / 2 ^ 16 : ℕ) := by
    intro n
    rw [randStream, toInt_rand, randState_succ']
  refine ⟨fun p => ?_, fun n => ?_, fun v hv n => ?_⟩
  · rw [← hseq.top_recurs_iff rfl rfl (by omega : 16 < 31)]
    refine forall_congr' fun n => ?_
    rw [← Int32.toInt_inj, hvalue, hvalue, Nat.cast_inj]
  · rw [hvalue]
    omega
  · rw [← hseq.card_top rfl rfl (by omega : 16 ≤ 31) (by omega : v < 2 ^ (31 - 16)) n]
    simp only [hvalue, Nat.cast_inj]

/-! ### Interleaved calls -/

/-- The generators of a program. -/
structure Generators (ι : Type*) where
  /-- The generator of `rand`. -/
  next : UInt64
  /-- The variables the program gives to `rand_r`. -/
  seed : ι → UInt32

/-- A call of one of the three functions. -/
inductive RandCall (ι : Type*)
  /-- `srand(seed)`. -/
  | srand (seed : UInt32)
  /-- `rand()`. -/
  | rand
  /-- `rand_r(&seed[k])`. -/
  | randR (k : ι)
  deriving DecidableEq

section
variable {ι : Type*} [DecidableEq ι]

/-- A call: what it returns, and the generators after it. -/
def Generators.call (g : Generators ι) : RandCall ι → Option Int32 × Generators ι
  | .srand seed => (none, { g with next := srand seed })
  | .rand => (some (rand g.next).1, { g with next := (rand g.next).2 })
  | .randR k =>
    (some (randR (g.seed k)).1, { g with seed := Function.update g.seed k (randR (g.seed k)).2 })

/-- The calls of a run, and what each returns. -/
def returned : Generators ι → List (RandCall ι) → List (RandCall ι × Option Int32)
  | _, [] => []
  | g, c :: calls => (c, (g.call c).1) :: returned (g.call c).2 calls

/-- What the calls `c` of a run return. -/
def valuesOf (c : RandCall ι) (trace : List (RandCall ι × Option Int32)) : List Int32 :=
  trace.filterMap fun (c', v) => if c' = c then v else none

variable {g : Generators ι} {calls : List (RandCall ι)} {c c' : RandCall ι}

@[simp] theorem valuesOf_nil : valuesOf c (returned g []) = [] := rfl

theorem valuesOf_cons_ne (h : c' ≠ c) :
    valuesOf c (returned g (c' :: calls)) = valuesOf c (returned (g.call c').2 calls) := by
  simp [valuesOf, returned, h]

theorem valuesOf_cons_self {v : Int32} (h : (g.call c).1 = some v) :
    valuesOf c (returned g (c :: calls)) = v :: valuesOf c (returned (g.call c).2 calls) := by
  simp [valuesOf, returned, h]

/-- A number of values of a stream: the first, and those of the stream after it. -/
theorem map_randStream_succ (next : UInt64) (n : ℕ) :
    (List.range (n + 1)).map (randStream next) =
      (rand next).1 :: (List.range n).map (randStream (rand next).2) := by
  have hfirst : randStream next 0 = (rand next).1 := rfl
  rw [List.range_succ_eq_map, List.map_cons, List.map_map, hfirst]
  exact congrArg _ (List.map_congr_left fun n _ => randStream_succ next n)

/-- What `rand_r` returns for one variable, which holds the low half of a state of `rand`. -/
theorem valuesOf_randR (k : ι) (next : UInt64) (h : g.seed k = next.toUInt32) :
    valuesOf (.randR k) (returned g calls) =
      (List.range (calls.count (.randR k))).map (randStream next) := by
  induction calls generalizing g next with
  | nil => rfl
  | cons c calls ih =>
    by_cases hc : c = .randR k
    · subst hc
      rw [valuesOf_cons_self rfl, List.count_cons_self, map_randStream_succ, h, randR_toUInt32,
        ih (rand next).2]
      simp [Generators.call, h, randR_toUInt32]
    · rw [valuesOf_cons_ne hc, List.count_cons_of_ne hc, ih next]
      cases c with
      | srand seed => exact h
      | rand => exact h
      | randR i =>
        have hi : k ≠ i := fun hi => hc (by rw [hi])
        simpa [Generators.call, hi] using h

/-- What `rand` returns as long as `srand` is not called. -/
theorem valuesOf_rand (h : ∀ seed, .srand seed ∉ calls) :
    valuesOf .rand (returned g calls) =
      (List.range (calls.count .rand)).map (randStream g.next) := by
  induction calls generalizing g with
  | nil => rfl
  | cons c calls ih =>
    have hrest : ∀ seed, .srand seed ∉ calls := fun seed hs => h seed (List.mem_cons_of_mem c hs)
    cases c with
    | srand seed => exact absurd (List.mem_cons_self ..) (h seed)
    | rand =>
      rw [valuesOf_cons_self rfl, List.count_cons_self, map_randStream_succ, ih hrest]
      rfl
    | randR i =>
      have hne : RandCall.randR i ≠ .rand := by simp
      rw [valuesOf_cons_ne hne, List.count_cons_of_ne hne, ih hrest]
      rfl

theorem returned_append (g : Generators ι) (calls calls' : List (RandCall ι)) :
    returned g (calls ++ calls') =
      returned g calls ++ returned (calls.foldl (fun g c => (g.call c).2) g) calls' := by
  induction calls generalizing g with
  | nil => rfl
  | cons c calls ih => rw [List.cons_append, returned, ih]; rfl

/-- **Interleaved calls**: whatever else is called between them, the calls of `rand_r` with one
variable return what `rand` would after `srand` of its first value; and the calls of `rand` after
`srand(seed)` return that sequence for `seed`, until `srand` is called again. -/
theorem random_streams (g : Generators ι) (before after : List (RandCall ι)) (seed : UInt32)
    (hlast : ∀ other, .srand other ∉ after) :
    (∀ k, valuesOf (.randR k) (returned g (before ++ .srand seed :: after)) =
        (List.range ((before ++ .srand seed :: after).count (.randR k))).map
          (randStream (srand (g.seed k)))) ∧
      valuesOf .rand (returned g (before ++ .srand seed :: after)) =
        valuesOf .rand (returned g before) ++
          (List.range (after.count .rand)).map (randStream (srand seed)) := by
  constructor
  · intro k
    exact valuesOf_randR k (srand (g.seed k)) (UInt32.toUInt32_toUInt64 _).symm
  · have hskip : ∀ g : Generators ι, valuesOf .rand (returned g (.srand seed :: after)) =
        valuesOf .rand (returned (g.call (.srand seed)).2 after) :=
      fun g => valuesOf_cons_ne (by simp)
    rw [returned_append, valuesOf, List.filterMap_append, ← valuesOf, ← valuesOf, hskip,
      valuesOf_rand hlast]
    rfl

/-- Two variables and the static generator, seeded alike and called in turns. -/
theorem random_streams_turns :
    let g : Generators Bool := ⟨7, fun _ => 1⟩
    let turns := [.randR true, .rand, .randR false, .randR true, .rand]
    valuesOf .rand (returned g ([.rand] ++ .srand 1 :: turns)) =
      valuesOf .rand (returned g [.rand]) ++ (List.range 2).map (randStream (srand 1)) :=
  (random_streams (⟨7, fun _ => 1⟩ : Generators Bool) [.rand]
    [.randR true, .rand, .randR false, .randR true, .rand] 1 (by simp)).2

end

end PrismaticOS.Libc
