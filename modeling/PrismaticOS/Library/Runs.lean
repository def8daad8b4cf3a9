import Mathlib.Data.Option.Basic

/-!
# Runs

A component is a step function `step : σ → α → Option σ`: what a call `a : α` made
in state `s` leaves, or `none` where no such call is made or it does not return. A
run is a list of calls, each made in the state the one before it left.

`Always` says that a property holds in every state of a run, `Along` that every call
of it keeps a promise about the states before and after it, `Each` that every call that
returns is made in a state where some condition holds, and `Made` says this of every
call. The rules here are the ones an invariant proof uses: `always_of_each` (an
invariant kept by every call that meets the condition), and `always_iff_each` and
`along_iff_each`, for a condition that is exact (a call that misses it destroys the
property, or breaks the promise, at once).
-/

namespace PrismaticOS.Library

variable {σ α : Type*} {step : σ → α → Option σ}

/-- The state after the calls of a run, if they all return. -/
def run (step : σ → α → Option σ) : σ → List α → Option σ
  | s, [] => some s
  | s, a :: as => (step s a).bind fun s' => run step s' as

/-- `P` holds in every state of the run, the first and the last included. -/
def Always (step : σ → α → Option σ) (P : σ → Prop) : σ → List α → Prop
  | s, [] => P s
  | s, a :: as => P s ∧ ∀ s', step s a = some s' → Always step P s' as

/-- Every call of the run, the state before it and the state after it are related by `R`. -/
def Along (step : σ → α → Option σ) (R : σ → α → σ → Prop) : σ → List α → Prop
  | _, [] => True
  | s, a :: as => ∀ s', step s a = some s' → R s a s' ∧ Along step R s' as

/-- Every call the run makes is made in a state where `ok` allows it. -/
def Each (step : σ → α → Option σ) (ok : σ → α → Prop) : σ → List α → Prop
  | _, [] => True
  | s, a :: as => ∀ s', step s a = some s' → ok s a ∧ Each step ok s' as

/-- Every call of the run, whether or not it returns, is made in a state where `ok` holds. -/
def Made (step : σ → α → Option σ) (ok : σ → α → Prop) : σ → List α → Prop
  | _, [] => True
  | s, a :: as => ok s a ∧ ∀ s', step s a = some s' → Made step ok s' as

/-- Whether every call of a run is allowed can be decided by making the run. -/
instance Each.decidable {ok : σ → α → Prop} [∀ s a, Decidable (ok s a)] :
    ∀ s as, Decidable (Each step ok s as)
  | _, [] => isTrue trivial
  | s, a :: as =>
    match h : step s a with
    | none => isTrue fun s' hs => by rw [h] at hs; cases hs
    | some t =>
      have : Decidable (Each step ok t as) := Each.decidable t as
      decidable_of_iff (ok s a ∧ Each step ok t as)
        ⟨fun ht s' hs => by rw [h] at hs; cases hs; exact ht, fun ht => ht t h⟩

theorem Always.head {P : σ → Prop} {s : σ} {as : List α} (h : Always step P s as) : P s := by
  cases as with
  | nil => exact h
  | cons a as => exact h.1

/-- What always holds holds after the first part of a run. -/
theorem Always.of_append {P : σ → Prop} {s t : σ} {as : List α} (bs : List α)
    (h : Always step P s (as ++ bs)) (hr : run step s as = some t) : Always step P t bs := by
  induction as generalizing s with
  | nil => exact Option.some.inj hr ▸ h
  | cons a as ih =>
    obtain ⟨u, hu, hr⟩ := Option.bind_eq_some_iff.mp hr
    exact ih (h.2 u hu) hr

/-- What always holds holds at the end. -/
theorem Always.of_run {P : σ → Prop} {s s' : σ} {as : List α} (h : Always step P s as)
    (hr : run step s as = some s') : P s' := by
  rw [← List.append_nil as] at h
  exact h.of_append [] hr

/-- What each call meets, each call of the last part of a run meets. -/
theorem Each.of_append {ok : σ → α → Prop} {s t : σ} {as : List α} (bs : List α)
    (h : Each step ok s (as ++ bs)) (hr : run step s as = some t) : Each step ok t bs := by
  induction as generalizing s with
  | nil => exact Option.some.inj hr ▸ h
  | cons a as ih =>
    obtain ⟨u, hu, hr⟩ := Option.bind_eq_some_iff.mp hr
    exact ih (h u hu).2 hr

theorem Always.mono {P Q : σ → Prop} (hPQ : ∀ s, P s → Q s) {s : σ} {as : List α}
    (h : Always step P s as) : Always step Q s as := by
  induction as generalizing s with
  | nil => exact hPQ s h
  | cons a as ih => exact ⟨hPQ s h.1, fun s' hs => ih (h.2 s' hs)⟩

variable {Inv P : σ → Prop} {ok : σ → α → Prop}

/-- **The invariant rule**: an invariant that every allowed call keeps holds in every
state of a run of allowed calls. -/
theorem always_of_each (hstep : ∀ s a s', Inv s → ok s a → step s a = some s' → Inv s')
    {s : σ} {as : List α} (hs : Inv s) (h : Each step ok s as) : Always step Inv s as := by
  induction as generalizing s with
  | nil => exact hs
  | cons a as ih =>
    refine ⟨hs, fun s' hs' => ?_⟩
    obtain ⟨hok, hrest⟩ := h s' hs'
    exact ih (hstep s a s' hs hok hs') hrest

/-- The rule for what holds of a call wherever the invariant does. -/
theorem Made.imp {ok ok' : σ → α → Prop} (hstep : ∀ s a s', Inv s → step s a = some s' → Inv s')
    (himp : ∀ s a, Inv s → ok s a → ok' s a) {s : σ} {as : List α} (hs : Inv s)
    (h : Made step ok s as) : Made step ok' s as := by
  induction as generalizing s with
  | nil => trivial
  | cons a as ih => exact ⟨himp s a hs h.1, fun s' hs' => ih (hstep s a s' hs hs') (h.2 s' hs')⟩

/-- The invariant rule without a condition. -/
theorem always_of_step (hstep : ∀ s a s', Inv s → step s a = some s' → Inv s')
    {s : σ} {as : List α} (hs : Inv s) : Always step Inv s as := by
  induction as generalizing s with
  | nil => exact hs
  | cons a as ih => exact ⟨hs, fun s' hs' => ih (hstep s a s' hs hs')⟩

/-- The rule for a promise that every call keeps where the invariant holds. -/
theorem along_of_step {R : σ → α → σ → Prop}
    (hstep : ∀ s a s', Inv s → step s a = some s' → Inv s' ∧ R s a s')
    {s : σ} {as : List α} (hs : Inv s) : Along step R s as := by
  induction as generalizing s with
  | nil => trivial
  | cons a as ih =>
    intro s' hs'
    obtain ⟨hinv, hR⟩ := hstep s a s' hs hs'
    exact ⟨hR, ih hinv⟩

/-- **The invariant rule for an exact condition**: if moreover the invariant gives the
property, and a call that is not allowed destroys the property at once, then the
property holds in every state of a run exactly if every call of it is allowed. -/
theorem always_iff_each (hP : ∀ s, Inv s → P s)
    (hstep : ∀ s a s', Inv s → ok s a → step s a = some s' → Inv s')
    (hbad : ∀ s a s', Inv s → ¬ ok s a → step s a = some s' → ¬ P s')
    {s : σ} {as : List α} (hs : Inv s) : Always step P s as ↔ Each step ok s as := by
  refine ⟨fun h => ?_, fun h => (always_of_each hstep hs h).mono hP⟩
  induction as generalizing s with
  | nil => trivial
  | cons a as ih =>
    intro s' hs'
    have hok : ok s a := by
      by_contra hno
      exact hbad s a s' hs hno hs' (h.2 s' hs').head
    exact ⟨hok, ih (hstep s a s' hs hok hs') (h.2 s' hs')⟩

/-- **The rule for a promise with an exact condition**: an allowed call keeps the
invariant and the promise, and a call that is not allowed breaks the promise, or the
property that the invariant gives. -/
theorem along_iff_each {R : σ → α → σ → Prop} (hP : ∀ s, Inv s → P s)
    (hstep : ∀ s a s', Inv s → ok s a → step s a = some s' → Inv s' ∧ R s a s')
    (hbad : ∀ s a s', Inv s → ¬ ok s a → step s a = some s' → P s' → ¬ R s a s')
    {s : σ} {as : List α} (hs : Inv s) :
    Always step P s as ∧ Along step R s as ↔ Each step ok s as := by
  induction as generalizing s with
  | nil => exact ⟨fun _ => trivial, fun _ => ⟨hP s hs, trivial⟩⟩
  | cons a as ih =>
    constructor
    · rintro ⟨hP', hR⟩ s' hs'
      have hok : ok s a := by
        by_contra hno
        exact hbad s a s' hs hno hs' (hP'.2 s' hs').head (hR s' hs').1
      exact ⟨hok, (ih (hstep s a s' hs hok hs').1).mp ⟨hP'.2 s' hs', (hR s' hs').2⟩⟩
    · intro h
      refine ⟨⟨hP s hs, fun s' hs' => ?_⟩, fun s' hs' => ?_⟩
      · obtain ⟨hok, hrest⟩ := h s' hs'
        exact ((ih (hstep s a s' hs hok hs').1).mpr hrest).1
      · obtain ⟨hok, hrest⟩ := h s' hs'
        obtain ⟨hinv, hR⟩ := hstep s a s' hs hok hs'
        exact ⟨hR, ((ih hinv).mpr hrest).2⟩

end PrismaticOS.Library
