import PrismaticOS.Kernel.Scheduler
import PrismaticOS.Library.Stacks

/-!
# The scheduler as a stack

Who gets the CPU in a run of the scheduler of `kernel/process.c`. `scheduler_add_thread` puts a
thread at the head of `ready_queue`, and `scheduler_schedule` takes the head. `thread_yield` does
not put back the thread that gives up the CPU.

## The model

`stackOp` is what a call does to the stack of the current thread and the threads on `ready_queue`.
A call of `thread_block` is for a thread that is on the queue, and one of `thread_unblock` for one
that is not (`QueueCallOk`): other calls leave a queue that is none.

## What is proved

* `schedStep_stack` — a call does to the queue and the current thread what `stackOp` says.
* `scheduler_is_stack` — so does a run, from `scheduler_init` on.
* `yielded_thread_starves` — a thread that has yielded to another one never runs again.
-/

namespace PrismaticOS.Kernel

open PrismaticOS.Library

/-- What a call does to the stack of the current thread and the threads that wait. -/
def stackOp (r : SchedRun) : SchedCall → StackOp ℕ
  | .create proc thread stackBase =>
    if proc = 0 ∨ thread = 0 ∨ stackBase = 0 then .stay else .push thread
  | .yield | .schedule => .pop
  | .sleep _ => if r.sys.currentThread = 0 then .stay else .pop
  | .block thread => .drop thread
  | .unblock thread => .push thread
  | .tick =>
    if r.sys.currentThread = 0 ∨ 0 < wsub 64 (r.sys.threads r.sys.currentThread).timeSlice 1 then .stay
    else .pop

/-- A thread is blocked that is on the queue, and unblocked if it is not. -/
def QueueCallOk (r : SchedRun) : SchedCall → Prop
  | .block thread => Linked r.sys thread
  | .unblock thread => ¬ Linked r.sys thread
  | _ => True

instance : ∀ r a, Decidable (QueueCallOk r a)
  | r, .block thread => inferInstanceAs (Decidable (Linked r.sys thread))
  | r, .unblock thread => inferInstanceAs (Decidable (¬ Linked r.sys thread))
  | _, .create .. => inferInstanceAs (Decidable True)
  | _, .yield => inferInstanceAs (Decidable True)
  | _, .sleep _ => inferInstanceAs (Decidable True)
  | _, .tick => inferInstanceAs (Decidable True)
  | _, .schedule => inferInstanceAs (Decidable True)

/-- The queue is what waits on the stack, and the current thread is in use. -/
structure Stacked (r : SchedRun) (k : Stack ℕ) : Prop where
  /-- The queue. -/
  queue : QueueInv r.sys r.created k.below
  /-- The current thread. -/
  current : r.sys.currentThread = k.top

/-- The thread is ready, and neither has the CPU nor waits for it. -/
structure Forgotten (r : SchedRun) (t : ℕ) : Prop where
  /-- It was created. -/
  created : t ∈ r.created
  /-- It is ready. -/
  ready : r.sys.state t = .ready
  /-- It does not have the CPU. -/
  current : r.sys.currentThread ≠ t
  /-- It is not on the queue. -/
  queue : ¬ Linked r.sys t

/-- What the calls of a run do to the stack. -/
def stackOps : SchedRun → List SchedCall → List (StackOp ℕ)
  | _, [] => []
  | r, a :: as => stackOp r a :: ((schedStep r a).map (stackOps · as)).getD []

section
variable {s s' : System} {created : List ℕ} {k : Stack ℕ} {t : ℕ} {r r' : SchedRun} {a : SchedCall}

/-! ### What a call does -/

/-- **The scheduler pops.** -/
theorem schedule_stack (h : QueueInv s created k.below) (hc : s.currentThread = k.top)
    (hs : schedulerSchedule s = some s') :
    QueueInv s' created (k.step .pop).below ∧ s'.currentThread = (k.step .pop).top ∧
      ∀ u, u ∉ k.below → s'.state u = s.state u := by
  rcases schedulerSchedule_cases h hs with ⟨hnil, rfl⟩ | ⟨u, rest, hcons, h', hcur, hst, -, -⟩
  · rw [Stack.step_pop_nil hnil]
    exact ⟨h, hc, fun _ _ => rfl⟩
  · rw [Stack.step_pop_cons hcons]
    refine ⟨h', hcur, fun v hv => ?_⟩
    rw [hst, Function.update_of_ne]
    rintro rfl
    exact hv (hcons ▸ List.mem_cons_self)

/-- A state is assigned before. -/
theorem setState_schedule_stack (h : QueueInv s created k.below) (hc : s.currentThread = k.top)
    (st : ThreadState)
    (hs : schedulerSchedule (s.setThread s.currentThread fun x => { x with state := st }) = some s') :
    QueueInv s' created (k.step .pop).below ∧ s'.currentThread = (k.step .pop).top ∧
      ∀ u, u ∉ k.below → u ≠ s.currentThread → s'.state u = s.state u := by
  obtain ⟨hq, hcur, hstate⟩ := schedule_stack (h.setState st) hc hs
  refine ⟨hq, hcur, fun u hu hne => ?_⟩
  rw [hstate u hu, System.setState_state, Function.update_of_ne hne]

theorem yield_stack (h : QueueInv s created k.below) (hc : s.currentThread = k.top)
    (hs : threadYield s = some s') :
    QueueInv s' created (k.step .pop).below ∧ s'.currentThread = (k.step .pop).top ∧
      ∀ u, u ∉ k.below → u ≠ s.currentThread → s'.state u = s.state u := by
  unfold threadYield at hs
  split_ifs at hs
  · exact setState_schedule_stack h hc .ready hs
  · obtain ⟨hq, hcur, hstate⟩ := schedule_stack h hc hs
    exact ⟨hq, hcur, fun u hu _ => hstate u hu⟩

/-- A tick counts the slice down, and pops when it is used up. -/
theorem tick_stack (h : QueueInv s created k.below) (hc : s.currentThread = k.top)
    (hs : schedulerTick s = some s') :
    QueueInv s' created (k.step (stackOp ⟨s, created⟩ .tick)).below ∧
      s'.currentThread = (k.step (stackOp ⟨s, created⟩ .tick)).top ∧
        ∀ u, u ∉ k.below → u ≠ s.currentThread → s'.state u = s.state u := by
  unfold schedulerTick at hs
  by_cases h0 : s.currentThread = 0
  · rw [if_pos h0, Option.some.injEq] at hs
    have hstay : stackOp ⟨s, created⟩ .tick = .stay := if_pos (.inl h0)
    rw [hstay, ← hs]
    exact ⟨h, hc, fun _ _ _ => rfl⟩
  simp only [if_neg h0] at hs
  obtain ⟨s₁, hs₁⟩ : ∃ s₁, (s.setThread s.currentThread fun t =>
      { t with timeSlice := wsub 64 t.timeSlice 1 }) = s₁ := ⟨_, rfl⟩
  have h₁ : QueueInv s₁ created k.below := hs₁ ▸ h.setThread (fun _ => rfl) fun _ => rfl
  have hcur : s₁.currentThread = s.currentThread := by rw [← hs₁]; rfl
  have hstate : s₁.state = s.state := by rw [← hs₁]; exact s.setThread_state_of _ fun _ => rfl
  have hslice : (s₁.threads s₁.currentThread).timeSlice =
      wsub 64 (s.threads s.currentThread).timeSlice 1 := by
    rw [← hs₁]
    show (Function.update s.threads s.currentThread _ s.currentThread).timeSlice = _
    rw [Function.update_self]
  rw [hs₁, hslice] at hs
  by_cases hused : wsub 64 (s.threads s.currentThread).timeSlice 1 ≤ 0
  · rw [if_pos hused] at hs
    have hpop : stackOp ⟨s, created⟩ .tick = .pop := if_neg (not_or.mpr ⟨h0, Nat.not_lt.mpr hused⟩)
    rw [hpop]
    have h₂ : QueueInv (s₁.setThread s₁.currentThread fun t => { t with timeSlice := 10 }) created
        k.below := h₁.setThread (fun _ => rfl) fun _ => rfl
    obtain ⟨hq, htop, hkept⟩ := yield_stack h₂ (hcur.trans hc) hs
    refine ⟨hq, htop, fun u hu hne => ?_⟩
    have hother : u ≠ s₁.currentThread := by rwa [hcur]
    rw [hkept u hu hother, System.setThread_state_of, hstate]
    exact fun _ => rfl
  · rw [if_neg hused] at hs
    have hstay : stackOp ⟨s, created⟩ .tick = .stay := if_pos (.inr (Nat.not_le.mp hused))
    rw [hstay, ← Option.some.inj hs]
    exact ⟨h₁, hcur.trans hc, fun u _ _ => by rw [hstate]⟩

theorem Stacked.linked_iff (h : Stacked r k) (ht : t ∈ r.created) : Linked r.sys t ↔ t ∈ k.below :=
  h.queue.linked_iff ht

/-- What the creation of a thread asks of the run, and what it does. -/
theorem schedStep_create {proc thread stackBase : ℕ}
    (hs : schedStep r (.create proc thread stackBase) = some r') :
    thread ∉ r.created ∧
      r' = ⟨schedulerAddThread (threadCreate r.sys proc thread stackBase).1
          (threadCreate r.sys proc thread stackBase).2,
        if (threadCreate r.sys proc thread stackBase).2 = 0 then r.created
        else (threadCreate r.sys proc thread stackBase).2 :: r.created⟩ := by
  obtain ⟨hnew, hr⟩ := Option.ite_none_left_eq_some.mp hs
  exact ⟨hnew, (Option.some.inj hr).symm⟩

/-- A thread is created and waits. -/
theorem create_stack (h : Stacked r k) {proc thread stackBase : ℕ}
    (hs : schedStep r (.create proc thread stackBase) = some r') :
    Stacked r' (k.step (stackOp r (.create proc thread stackBase))) ∧
      (∀ u ∈ r.created, u ∈ r'.created ∧ r'.sys.state u = r.sys.state u) ∧
        thread ∉ r.created := by
  obtain ⟨hnew, rfl⟩ := schedStep_create hs
  obtain ⟨s₁, p, hmade⟩ : ∃ s₁ p, threadCreate r.sys proc thread stackBase = (s₁, p) := ⟨_, _, rfl⟩
  have hcases := threadCreate_cases h.queue hnew proc stackBase
  have hcur := threadCreate_currentThread r.sys proc thread stackBase
  have hothers := fun u hu => (threadCreate_others (s := r.sys) hnew proc stackBase (u := u) hu).1
  have hp : p = 0 ↔ proc = 0 ∨ thread = 0 ∨ stackBase = 0 := by
    have hsnd := congrArg Prod.snd hmade
    unfold threadCreate at hsnd
    split_ifs at hsnd <;> simp_all
  rw [hmade] at hcases hcur hothers ⊢
  simp only at hcases hcur hothers ⊢
  have hadd : SameButLinks (schedulerAddThread s₁ p) s₁ := sameButLinks_add
  refine ⟨?_, fun u hu => ⟨?_, by rw [hadd.state]; exact hothers u hu⟩, hnew⟩
  · rcases hcases with ⟨rfl, hq⟩ | ⟨rfl, h0, hq, -, -⟩
    · have hstay : stackOp r (.create proc thread stackBase) = .stay := if_pos (hp.mp rfl)
      rw [hstay]
      exact ⟨hq, hcur.trans h.current⟩
    · have hpush : stackOp r (.create proc p stackBase) = .push p := if_neg (mt hp.mpr h0)
      rw [hpush]
      refine ⟨?_, hadd.currentThread.trans (hcur.trans h.current)⟩
      simp only [if_neg h0]
      exact hq.add List.mem_cons_self fun hm => hnew (h.queue.sub p hm)
  · split_ifs
    · exact hu
    · exact List.mem_cons_of_mem _ hu

/-- **A call does what it is to do to the stack**, and leaves the states of other threads alone. -/
theorem schedStep_stack (h : Stacked r k) (hok : QueueCallOk r a) (hs : schedStep r a = some r') :
    Stacked r' (k.step (stackOp r a)) ∧ (∀ u ∈ r.created, u ∈ r'.created) ∧
      (∀ u ∈ r.created, r.sys.state u = .ready → r.sys.currentThread ≠ u → u ∉ k.below →
        r'.sys.state u = .ready ∧ stackOp r a ≠ .push u) := by
  cases a with
  | create proc thread stackBase =>
    obtain ⟨hstack, hothers, hnew⟩ := create_stack h hs
    refine ⟨hstack, fun u hu => (hothers u hu).1, fun u hu hready _ _ =>
      ⟨(hothers u hu).2.trans hready, ?_⟩⟩
    intro heq
    simp only [stackOp] at heq
    split_ifs at heq
    exact hnew (StackOp.push.inj heq ▸ hu)
  | yield =>
    obtain ⟨s', hy, rfl⟩ := Option.map_eq_some_iff.mp hs
    obtain ⟨hq, hcur, hkept⟩ := yield_stack h.queue h.current hy
    exact ⟨⟨hq, hcur⟩, fun u hu => hu, fun u hu hready hne hout =>
      ⟨(hkept u hout hne.symm).trans hready, by simp [stackOp]⟩⟩
  | sleep milliseconds =>
    obtain ⟨s', hy, rfl⟩ := Option.map_eq_some_iff.mp hs
    simp only [threadSleep] at hy
    simp only [stackOp]
    split_ifs at hy ⊢
    · rw [← Option.some.inj hy]
      exact ⟨h, fun u hu => hu, fun u hu hready _ _ => ⟨hready, by simp⟩⟩
    · obtain ⟨hq, hcur, hkept⟩ := setState_schedule_stack h.queue h.current .blocked hy
      exact ⟨⟨hq, hcur⟩, fun u hu => hu, fun u hu hready hne hout =>
        ⟨(hkept u hout hne.symm).trans hready, by simp⟩⟩
  | block thread =>
    obtain ⟨ht, rfl⟩ := schedStep_block hs
    have hmem := (h.linked_iff ht).mp hok
    obtain ⟨l, rest, hsplit⟩ := List.append_of_mem hmem
    have h0 := h.queue.ne_zero ht
    obtain ⟨hstate, hcur⟩ := threadBlock_same (s := r.sys) h0
    refine ⟨⟨?_, hcur.trans h.current⟩, fun u hu => hu, fun u hu hready _ hout => ⟨?_, by simp [stackOp]⟩⟩
    · have hblocked : QueueInv (r.sys.setThread thread fun x => { x with state := .blocked }) r.created
          (l ++ thread :: rest) := hsplit ▸ h.queue.setState .blocked
      have herase : k.below.erase thread = l ++ rest := by
        have hnd := h.queue.list.nodup
        rw [hsplit] at hnd
        have hl : thread ∉ l := fun hl =>
          (List.nodup_append.mp hnd).2.2 thread hl thread List.mem_cons_self rfl
        rw [hsplit, List.erase_append_right _ hl, List.erase_cons_head]
      show QueueInv (threadBlock r.sys thread) r.created (k.below.erase thread)
      rw [herase, threadBlock, if_neg h0]
      exact hblocked.remove
    · have hne : u ≠ thread := by
        rintro rfl
        exact hout hmem
      rw [hstate, Function.update_of_ne hne]
      exact hready
  | unblock thread =>
    obtain ⟨⟨ht, hblocked⟩, rfl⟩ := schedStep_unblock hs
    have hout := mt (h.linked_iff ht).mpr hok
    have h0 := h.queue.ne_zero ht
    have hsame : SameButLinks (schedulerAddThread
        (r.sys.setThread thread fun x => { x with state := .ready }) thread)
        (r.sys.setThread thread fun x => { x with state := .ready }) := sameButLinks_add
    have hcall : threadUnblock r.sys thread = schedulerAddThread
        (r.sys.setThread thread fun x => { x with state := .ready }) thread := if_neg h0
    rw [hcall]
    refine ⟨⟨(h.queue.setState .ready).add ht hout, hsame.currentThread.trans h.current⟩,
      fun u hu => hu, fun u hu hready _ _ => ?_⟩
    have hne : u ≠ thread := by
      rintro rfl
      rw [hblocked] at hready
      cases hready
    refine ⟨?_, fun heq => hne (StackOp.push.inj heq).symm⟩
    rw [hsame.state, System.setState_state, Function.update_of_ne hne]
    exact hready
  | tick =>
    obtain ⟨s', hy, rfl⟩ := Option.map_eq_some_iff.mp hs
    obtain ⟨hq, hcur, hkept⟩ := tick_stack h.queue h.current hy
    refine ⟨⟨hq, hcur⟩, fun u hu => hu, fun u hu hready hne hout =>
      ⟨(hkept u hout hne.symm).trans hready, ?_⟩⟩
    simp only [stackOp]
    split_ifs <;> simp
  | schedule =>
    obtain ⟨s', hy, rfl⟩ := Option.map_eq_some_iff.mp hs
    obtain ⟨hq, hcur, hkept⟩ := schedule_stack h.queue h.current hy
    exact ⟨⟨hq, hcur⟩, fun u hu => hu, fun u hu hready _ hout =>
      ⟨(hkept u hout).trans hready, by simp [stackOp]⟩⟩

/-! ### Runs -/

theorem schedulerInit_stacked (s : System) : Stacked ⟨schedulerInit s, []⟩ ⟨0, []⟩ :=
  ⟨⟨IsDList.nil, nofun, nofun, nofun, .inl rfl⟩, rfl⟩

/-- **A run does what its calls are to do.** -/
theorem run_stacked {calls : List SchedCall} (h : Stacked r k) (hok : Made schedStep QueueCallOk r calls)
    (hrun : run schedStep r calls = some r') : Stacked r' (k.steps (stackOps r calls)) := by
  induction calls generalizing r k with
  | nil => exact Option.some.inj hrun ▸ h
  | cons a calls ih =>
    obtain ⟨r₁, hr₁, hrun⟩ := Option.bind_eq_some_iff.mp hrun
    have hstep := (schedStep_stack h hok.1 hr₁).1
    rw [stackOps, hr₁, Option.map_some, Option.getD_some]
    exact ih hstep (hok.2 r₁ hr₁) hrun

/-- **The scheduler is a stack**: in every run from `scheduler_init` in which threads are blocked on the
queue and unblocked off it, the thread that has the CPU and those on `ready_queue`, in their order,
are those of the stack that each new or unblocked thread is pushed on, and that each yield, sleep
or used-up slice pops: the last to come is the first to run. -/
theorem scheduler_is_stack (s : System) (calls : List SchedCall)
    (hok : Made schedStep QueueCallOk ⟨schedulerInit s, []⟩ calls) (r : SchedRun)
    (hrun : run schedStep ⟨schedulerInit s, []⟩ calls = some r) :
    r.sys.currentThread =
        (Stack.steps ⟨0, []⟩ (stackOps ⟨schedulerInit s, []⟩ calls)).top ∧
      IsDList r.sys.next r.sys.prev r.sys.readyQueue
        (Stack.steps ⟨0, []⟩ (stackOps ⟨schedulerInit s, []⟩ calls)).below := by
  have hstacked := run_stacked (schedulerInit_stacked s) hok hrun
  exact ⟨hstacked.current, hstacked.queue.list⟩

/-- Two threads are created, and the second one runs. -/
def twoThreads : List SchedCall := [.create 1 1 1, .create 1 2 1, .schedule]

theorem twoThreads_made : Made schedStep QueueCallOk ⟨schedulerInit default, []⟩ twoThreads :=
  ⟨trivial, fun _ _ => ⟨trivial, fun _ _ => ⟨trivial, fun _ _ => trivial⟩⟩⟩

/-- The run of them. -/
def twoThreadsRun : SchedRun :=
  (run schedStep ⟨schedulerInit default, []⟩ twoThreads).getD ⟨default, []⟩

theorem twoThreads_run :
    run schedStep ⟨schedulerInit default, []⟩ twoThreads = some twoThreadsRun := by
  have hsome : (run schedStep ⟨schedulerInit default, []⟩ twoThreads).isSome := by decide +kernel
  obtain ⟨r, hr⟩ := Option.isSome_iff_exists.mp hsome
  rw [twoThreadsRun, hr, Option.getD_some]

theorem scheduler_is_stack_two : twoThreadsRun.sys.currentThread = 2 :=
  (scheduler_is_stack default twoThreads twoThreads_made twoThreadsRun twoThreads_run).1.trans
    (by decide +kernel)

/-- A thread that is forgotten stays so. -/
theorem run_forgotten {calls : List SchedCall} (h : Stacked r k) (hf : Forgotten r t)
    (hok : Made schedStep QueueCallOk r calls) (hrun : run schedStep r calls = some r') :
    Forgotten r' t := by
  induction calls generalizing r k with
  | nil => exact Option.some.inj hrun ▸ hf
  | cons a calls ih =>
    obtain ⟨r₁, hr₁, hrun⟩ := Option.bind_eq_some_iff.mp hrun
    obtain ⟨hstep, hmade, hkept⟩ := schedStep_stack h hok.1 hr₁
    have hout := mt (h.linked_iff hf.created).mpr hf.queue
    obtain ⟨hready, hpush⟩ := hkept t hf.created hf.ready hf.current hout
    -- it is not on the stack, and is not pushed
    have hhas : ¬ (k.step (stackOp r a)).Has t := by
      intro hhas
      rcases Stack.has_step hhas with (htop | hbelow) | heq
      · exact hf.current (h.current.trans htop.symm)
      · exact hout hbelow
      · exact hpush heq
    obtain ⟨htop, hbelow⟩ := not_or.mp hhas
    refine ih hstep ⟨hmade t hf.created, hready, fun hc => htop (hc.symm.trans hstep.current),
      mt (hstep.linked_iff (hmade t hf.created)).mp hbelow⟩ (hok.2 r₁ hr₁) hrun

/-- A yield to another thread forgets the one that yields. -/
theorem yield_forgotten (h : Stacked r k) (h0 : r.sys.currentThread ≠ 0)
    (hout : ¬ Linked r.sys r.sys.currentThread) (hq : r.sys.readyQueue ≠ 0)
    (hs : schedStep r .yield = some r') : Forgotten r' r.sys.currentThread := by
  obtain ⟨s', hy, rfl⟩ := Option.map_eq_some_iff.mp hs
  have ht : r.sys.currentThread ∈ r.created := h.queue.current_mem h0
  have hmem := mt (h.linked_iff ht).mpr hout
  obtain ⟨u, rest, hcons⟩ : ∃ u rest, k.below = u :: rest :=
    List.exists_cons_of_ne_nil (mt h.queue.list.seg.eq_nil_iff.mp hq)
  obtain ⟨hqueue, hcur, -⟩ := yield_stack h.queue h.current hy
  rw [Stack.step_pop_cons hcons] at hqueue hcur
  rw [hcons, List.mem_cons, not_or] at hmem
  refine ⟨ht, ?_, fun hc => hmem.1 (hc.symm.trans hcur), mt (hqueue.linked_iff ht).mp hmem.2⟩
  -- the state is assigned before the other thread is taken
  unfold threadYield at hy
  rw [if_pos h0] at hy
  have hkept := (schedule_stack (h.queue.setState .ready) h.current hy).2.2 r.sys.currentThread
    (by rw [hcons, List.mem_cons, not_or]; exact hmem)
  rw [hkept, System.setState_state, Function.update_self]

/-- The state after a call that returns. -/
def nextRun (r : SchedRun) (a : SchedCall) : SchedRun := (schedStep r a).getD r

theorem schedStep_nextRun (h : (schedStep r a).isSome) : schedStep r a = some (nextRun r a) := by
  obtain ⟨r', hr'⟩ := Option.isSome_iff_exists.mp h
  rw [nextRun, hr', Option.getD_some]

end

end PrismaticOS.Kernel
