import PrismaticOS.Kernel.SchedulerStack

/-!
# The end of a thread

`thread_exit` of `kernel/process.c`. It takes the thread that ends off `ready_queue`, where it is
not: `scheduler_schedule` took it off when it gave it the CPU. Its links are empty, so the whole
queue goes, and `scheduler_schedule` finds no thread to switch to.

## The model

`thread_destroy` frees the stack and the thread, which then is none of the threads that were created.
`current_thread` still points at it. The return value of the thread is not used.

## What is proved

* `exit_halts` — after a thread has ended no thread runs, whichever threads waited.
-/

namespace PrismaticOS.Kernel

open PrismaticOS.Library

/-- `thread_exit`, with `thread_destroy`. -/
def threadExit (r : SchedRun) : Option SchedRun :=
  if r.sys.currentThread = 0 then some r
  else
    (schedulerSchedule (schedulerRemoveThread
        (r.sys.setThread r.sys.currentThread fun t => { t with state := .terminated })
        r.sys.currentThread)).map fun s => ⟨s, r.created.filter (· ≠ r.sys.currentThread)⟩

/-- A call that names no thread: one of the thread that has the CPU, or of the timer. -/
def SchedCall.NamesNone : SchedCall → Prop
  | .create .. | .block _ | .unblock _ => False
  | .yield | .sleep _ | .tick | .schedule => True

/-- Nothing waits, the CPU is where it was, and no other thread has changed. -/
structure Halted (s s' : System) : Prop where
  /-- The queue is empty. -/
  queue : s'.readyQueue = 0
  /-- The current thread is the same. -/
  current : s'.currentThread = s.currentThread
  /-- The states of the others are the same. -/
  state : ∀ t, t ≠ s.currentThread → s'.state t = s.state t

section
variable {s s' s'' : System} {r : SchedRun} {k : Stack ℕ} {a : SchedCall}

theorem Halted.trans (h : Halted s s') (h' : Halted s' s'') : Halted s s'' :=
  ⟨h'.queue, h'.current.trans h.current, fun t ht =>
    (h'.state t fun heq => ht (heq.trans h.current)).trans (h.state t ht)⟩

/-! ### Calls with nothing to switch to -/

theorem schedule_halted (h : s.readyQueue = 0) : schedulerSchedule s = some s := if_pos h

/-- The state of the current thread is assigned before. -/
theorem setState_halted (h : s.readyQueue = 0) (st : ThreadState) :
    ∃ s', schedulerSchedule (s.setThread s.currentThread fun t => { t with state := st }) = some s' ∧
      Halted s s' := by
  refine ⟨_, schedule_halted h, h, rfl, fun t ht => ?_⟩
  rw [System.setState_state, Function.update_of_ne ht]

theorem yield_halted (h : s.readyQueue = 0) : ∃ s', threadYield s = some s' ∧ Halted s s' := by
  unfold threadYield
  split
  · exact setState_halted h .ready
  · exact ⟨s, schedule_halted h, h, rfl, fun _ _ => rfl⟩

theorem sleep_halted (h : s.readyQueue = 0) : ∃ s', threadSleep s = some s' ∧ Halted s s' := by
  unfold threadSleep
  split
  · exact ⟨s, rfl, h, rfl, fun _ _ => rfl⟩
  · exact setState_halted h .blocked

/-- A slice is assigned. -/
theorem setSlice_halted (h : s.readyQueue = 0) (f : Thread → Thread)
    (hf : ∀ x, (f x).state = x.state) : Halted s (s.setThread s.currentThread f) :=
  ⟨h, rfl, fun t _ => by rw [System.setThread_state_of _ _ hf]⟩

theorem tick_halted (h : s.readyQueue = 0) : ∃ s', schedulerTick s = some s' ∧ Halted s s' := by
  unfold schedulerTick
  split
  · exact ⟨s, rfl, h, rfl, fun _ _ => rfl⟩
  obtain ⟨s₁, hs₁⟩ : ∃ s₁, (s.setThread s.currentThread fun t =>
      { t with timeSlice := wsub 64 t.timeSlice 1 }) = s₁ := ⟨_, rfl⟩
  have h₁ : Halted s s₁ := hs₁ ▸ setSlice_halted h _ fun _ => rfl
  simp only [hs₁]
  split
  · have h₂ := setSlice_halted h₁.queue (fun t => { t with timeSlice := 10 }) fun _ => rfl
    obtain ⟨s', hs', hyield⟩ := yield_halted h₂.queue
    exact ⟨s', hs', h₁.trans (h₂.trans hyield)⟩
  · exact ⟨s₁, rfl, h₁⟩

/-- A call returns, and no thread runs. -/
theorem schedStep_halted (h : r.sys.readyQueue = 0) (ha : a.NamesNone) :
    ∃ s', schedStep r a = some ⟨s', r.created⟩ ∧ Halted r.sys s' := by
  cases a with
  | create => exact ha.elim
  | block => exact ha.elim
  | unblock => exact ha.elim
  | yield =>
    obtain ⟨s', hs', hhalted⟩ := yield_halted h
    exact ⟨s', by rw [schedStep, hs', Option.map_some], hhalted⟩
  | sleep milliseconds =>
    obtain ⟨s', hs', hhalted⟩ := sleep_halted h
    exact ⟨s', by rw [schedStep, hs', Option.map_some], hhalted⟩
  | tick =>
    obtain ⟨s', hs', hhalted⟩ := tick_halted h
    exact ⟨s', by rw [schedStep, hs', Option.map_some], hhalted⟩
  | schedule =>
    refine ⟨r.sys, ?_, h, rfl, fun _ _ => rfl⟩
    rw [schedStep, schedule_halted h, Option.map_some]

/-- So it is in a run. -/
theorem run_halted (h : r.sys.readyQueue = 0) (calls : List SchedCall)
    (hcalls : ∀ a ∈ calls, a.NamesNone) :
    ∃ s', run schedStep r calls = some ⟨s', r.created⟩ ∧ Halted r.sys s' := by
  induction calls generalizing r with
  | nil => exact ⟨r.sys, rfl, h, rfl, fun _ _ => rfl⟩
  | cons a calls ih =>
    rw [List.forall_mem_cons] at hcalls
    obtain ⟨s₁, hstep, hhalted⟩ := schedStep_halted h hcalls.1
    obtain ⟨s', hrun, hrest⟩ := ih (r := ⟨s₁, r.created⟩) hhalted.queue hcalls.2
    exact ⟨s', by rw [run, hstep, Option.bind_some, hrun], hhalted.trans hrest⟩

/-! ### The end of a thread -/

/-- What `thread_exit` leaves. -/
theorem threadExit_halted (h : Stacked r k) (h0 : r.sys.currentThread ≠ 0)
    (hout : ¬ Linked r.sys r.sys.currentThread) :
    ∃ s', threadExit r = some ⟨s', r.created.filter (· ≠ r.sys.currentThread)⟩ ∧
      Halted r.sys s' := by
  have ht := h.queue.current_mem h0
  obtain ⟨hnext, hprev⟩ := h.queue.unlinked _ ht (mt (h.linked_iff ht).mpr hout)
  obtain ⟨s₁, hs₁⟩ : ∃ s₁, (r.sys.setThread r.sys.currentThread fun t =>
      { t with state := .terminated }) = s₁ := ⟨_, rfl⟩
  have hn : s₁.next = r.sys.next := hs₁ ▸ r.sys.setThread_next_of _ fun _ => rfl
  have hp : s₁.prev = r.sys.prev := hs₁ ▸ r.sys.setThread_prev_of _ fun _ => rfl
  -- its links are empty, so that the queue is emptied
  obtain ⟨hqueue, -, -⟩ := schedulerRemoveThread_off (s := s₁) h0 (by rw [hn, hnext]) (by rw [hp, hprev])
  have hsame := sameButLinks_remove (s := s₁) (t := r.sys.currentThread)
  refine ⟨_, by rw [threadExit, if_neg h0, hs₁, schedule_halted hqueue, Option.map_some], hqueue,
    ?_, fun t hne => ?_⟩
  · rw [hsame.currentThread, ← hs₁]
    rfl
  · rw [hsame.state, ← hs₁, System.setState_state, Function.update_of_ne hne]

/-- **The end of a thread stops the machine**: wherever in a run from `scheduler_init` a thread that
`scheduler_schedule` took off the queue ends, `thread_exit` returns to it, though it has freed it, and
empties the queue. However many threads waited, they are ready as before, and none of them gets the
CPU through any further calls of `thread_yield`, `thread_sleep`, `scheduler_schedule` and
`scheduler_tick`: `current_thread` stays what was freed. -/
theorem exit_halts (s : System) (calls : List SchedCall)
    (hok : Made schedStep QueueCallOk ⟨schedulerInit s, []⟩ calls) (r : SchedRun)
    (hrun : run schedStep ⟨schedulerInit s, []⟩ calls = some r) (h0 : r.sys.currentThread ≠ 0)
    (hout : ¬ Linked r.sys r.sys.currentThread) :
    ∃ r₁, threadExit r = some r₁ ∧ r.sys.currentThread ∉ r₁.created ∧
      ∀ more : List SchedCall, (∀ a ∈ more, a.NamesNone) →
        ∃ r₂, run schedStep r₁ more = some r₂ ∧ r₂.sys.readyQueue = 0 ∧
          r₂.sys.currentThread = r.sys.currentThread ∧
            ∀ t ∈ r₁.created, r₂.sys.state t = r.sys.state t := by
  obtain ⟨s₁, hexit, hhalted⟩ := threadExit_halted (run_stacked (schedulerInit_stacked s) hok hrun)
    h0 hout
  have hfreed : ∀ t ∈ r.created.filter (· ≠ r.sys.currentThread), t ≠ r.sys.currentThread :=
    fun t ht => of_decide_eq_true (List.mem_filter.mp ht).2
  refine ⟨_, hexit, fun hmem => hfreed _ hmem rfl, fun more hmore => ?_⟩
  obtain ⟨s₂, hmore', hrest⟩ := run_halted (r := ⟨s₁, r.created.filter (· ≠ r.sys.currentThread)⟩)
    hhalted.queue more hmore
  have hall := hhalted.trans hrest
  exact ⟨_, hmore', hall.queue, hall.current, fun t ht => hall.state t (hfreed t ht)⟩

/-- The second of two threads ends while the first one waits. -/
theorem exit_halts_two : ∃ r₁, threadExit twoThreadsRun = some r₁ ∧
    ∃ r₂, run schedStep r₁ [.tick, .yield] = some r₂ ∧ r₂.sys.currentThread = 2 := by
  obtain ⟨r₁, hexit, -, hmore⟩ := exit_halts default twoThreads twoThreads_made twoThreadsRun
    twoThreads_run (by decide +kernel) (by decide +kernel)
  obtain ⟨r₂, hrun, -, hcurrent, -⟩ := hmore [.tick, .yield] fun a ha => by
    rcases List.mem_cons.mp ha with rfl | ha
    · trivial
    · rw [List.mem_singleton.mp ha]
      trivial
  exact ⟨r₁, hexit, r₂, hrun, hcurrent.trans (by decide +kernel)⟩

end

end PrismaticOS.Kernel
