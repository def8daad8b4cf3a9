import PrismaticOS.Kernel.Process

/-!
# Links between processes

What the edits of the lists in `kernel/process.c` do to the processes: to the one that is put on a
list or taken off it, and to its neighbours.

## What is proved

* `listProcess_procs`, `processAddChild_procs` — a process is put in front of a list.
* `unlistProcess_procs`, `processRemoveChild_procs` — a process is taken off a list.
-/

namespace PrismaticOS.Kernel

open PrismaticOS.Library

variable {s : System} {p : ℕ}

theorem setProc_apply (s : System) (p q : ℕ) (f : Process → Process) :
    (s.setProc p f).procs q = if q = p then f (s.procs p) else s.procs q :=
  Function.update_apply ..

/-- A link that is written unless there is nobody to write it to. -/
theorem procs_join {t : System} (ht : t.procs = s.procs) (p q : ℕ) (f : Process → Process) :
    (if p ≠ 0 then s.setProc p f else t).procs q =
      if p ≠ 0 ∧ q = p then f (s.procs q) else s.procs q := by
  by_cases hp : p = 0
  · rw [if_neg (not_not.mpr hp), if_neg fun h => h.1 hp, ht]
  · rw [if_pos hp, setProc_apply]
    by_cases hq : q = p
    · rw [if_pos hq, if_pos ⟨hp, hq⟩, hq]
    · rw [if_neg hq, if_neg fun h => hq h.2]

/-! ### In front of a list -/

/-- A process in front of the list of all processes. -/
theorem listProcess_procs (s : System) (p q : ℕ) :
    (listProcess s p).procs q =
      if q = p then { s.procs p with next := s.processList, prev := 0 }
      else { s.procs q with
        prev := if s.processList ≠ 0 ∧ q = s.processList then p else (s.procs q).prev } := by
  unfold listProcess
  simp only [setProc_apply, System.setProcessList, apply_ite System.procs, ite_apply]
  split_ifs <;> grind

/-- A process in front of the children of another one. -/
theorem processAddChild_procs (s : System) {parent child : ℕ} (h : parent ≠ child) (q : ℕ) :
    (processAddChild s parent child).procs q =
      if q = child then
        { s.procs child with parent := parent, next := (s.procs parent).children, prev := 0 }
      else { s.procs q with
        children := if q = parent then child else (s.procs q).children
        prev := if (s.procs parent).children ≠ 0 ∧ q = (s.procs parent).children then child
          else (s.procs q).prev } := by
  unfold processAddChild
  simp only [setProc_apply, apply_ite System.procs, ite_apply, if_neg h]
  split_ifs <;> grind

theorem processAddChild_frame (s : System) (parent child : ℕ) :
    (processAddChild s parent child).processList = s.processList ∧
      (processAddChild s parent child).currentProcess = s.currentProcess := by
  unfold processAddChild
  dsimp only
  split <;> exact ⟨rfl, rfl⟩

/-! ### Off a list -/

/-- A process taken off the list of all processes. -/
theorem unlistProcess_procs (hprev : s.procPrev p ≠ p) (q : ℕ) :
    (unlistProcess s p).procs q = { s.procs q with
      next := if s.procPrev p ≠ 0 ∧ q = s.procPrev p then s.procNext p else (s.procs q).next
      prev := if s.procNext p ≠ 0 ∧ q = s.procNext p then s.procPrev p else (s.procs q).prev } := by
  obtain ⟨u, hu⟩ : ∃ u, (if s.procPrev p ≠ 0 then
      s.setProc (s.procPrev p) fun x => { x with next := s.procNext p } else
      s.setProcessList (s.procNext p)) = u := ⟨_, rfl⟩
  have hprocs (q : ℕ) : u.procs q = { s.procs q with
      next := if s.procPrev p ≠ 0 ∧ q = s.procPrev p then s.procNext p else (s.procs q).next } := by
    rw [← hu, procs_join (s := s) (t := s.setProcessList (s.procNext p)) rfl]
    split <;> rfl
  have hnext : u.procNext p = s.procNext p := by
    rw [System.procNext, hprocs, if_neg fun h => hprev h.2.symm]
    rfl
  have hprev' : u.procPrev p = s.procPrev p := by
    rw [System.procPrev, hprocs]
    rfl
  unfold unlistProcess
  simp only [hu, hnext, hprev']
  rw [procs_join rfl]
  split <;> rw [hprocs]

/-- A process taken off the children of another one. -/
theorem processRemoveChild_procs {child : ℕ} (parent : ℕ) (hprev : s.procPrev child ≠ child)
    (q : ℕ) :
    (processRemoveChild s parent child).procs q = { s.procs q with
      parent := if q = child then 0 else (s.procs q).parent
      children := if s.procPrev child = 0 ∧ q = parent then s.procNext child else (s.procs q).children
      next := if s.procPrev child ≠ 0 ∧ q = s.procPrev child then s.procNext child
        else (s.procs q).next
      prev := if s.procNext child ≠ 0 ∧ q = s.procNext child then s.procPrev child
        else (s.procs q).prev } := by
  obtain ⟨u, hu⟩ : ∃ u, (if s.procPrev child ≠ 0 then
      s.setProc (s.procPrev child) fun p => { p with next := s.procNext child } else
      s.setProc parent fun p => { p with children := s.procNext child }) = u := ⟨_, rfl⟩
  have hprocs (q : ℕ) : u.procs q = { s.procs q with
      children := if s.procPrev child = 0 ∧ q = parent then s.procNext child else (s.procs q).children
      next := if s.procPrev child ≠ 0 ∧ q = s.procPrev child then s.procNext child
        else (s.procs q).next } := by
    by_cases h₀ : s.procPrev child = 0
    · rw [if_neg (not_not.mpr h₀)] at hu
      rw [← hu, setProc_apply]
      by_cases hq : q = parent <;> simp [hq, h₀]
    · rw [if_pos h₀] at hu
      rw [← hu, setProc_apply]
      by_cases hq : q = s.procPrev child <;> simp [hq, h₀]
  have hnext : u.procNext child = s.procNext child := by
    have hself : ¬ (s.procPrev child ≠ 0 ∧ child = s.procPrev child) := fun h => hprev h.2.symm
    rw [System.procNext, hprocs]
    exact if_neg hself
  have hprev' : u.procPrev child = s.procPrev child := by
    rw [System.procPrev, hprocs]
    rfl
  unfold processRemoveChild
  simp only [hu, hnext, hprev', setProc_apply, procs_join rfl, hprocs]
  by_cases hq : q = child
  · subst hq
    rw [if_pos rfl, if_pos rfl]
    split <;> rfl
  · rw [if_neg hq, if_neg hq]
    split <;> rfl

/-- The first child of a process taken off both lists. -/
theorem dropFirst_procs (parent : ℕ) (hp : p ≠ 0) (hprev : s.procPrev p = 0) (q : ℕ) :
    (processRemoveChild (unlistProcess s p) parent p).procs q = { s.procs q with
      parent := if q = p then 0 else (s.procs q).parent
      children := if q = parent then s.procNext p else (s.procs q).children
      prev := if s.procNext p ≠ 0 ∧ q = s.procNext p then 0 else (s.procs q).prev } := by
  have hu := unlistProcess_procs (s := s) (p := p) (hprev ▸ Ne.symm hp)
  simp only [hprev, ne_eq, not_true_eq_false, false_and, if_false] at hu
  have hnext : (unlistProcess s p).procNext p = s.procNext p := by rw [System.procNext, hu]; rfl
  have hprev' : (unlistProcess s p).procPrev p = 0 := by
    rw [System.procPrev, hu]
    split
    · rfl
    · exact hprev
  rw [processRemoveChild_procs _ (hprev' ▸ Ne.symm hp), hu]
  simp only [hnext, hprev', ne_eq, not_true_eq_false, false_and, if_false, true_and]
  by_cases hq : ¬ s.procNext p = 0 ∧ q = s.procNext p
  · simp only [if_pos hq]
  · simp only [if_neg hq]

/-- What a removal leaves of the other variables. -/
theorem processRemoveChild_frame (s : System) (parent child : ℕ) :
    (processRemoveChild s parent child).processList = s.processList ∧
      (processRemoveChild s parent child).currentProcess = s.currentProcess := by
  unfold processRemoveChild
  dsimp only
  split_ifs <;> exact ⟨rfl, rfl⟩

end PrismaticOS.Kernel
