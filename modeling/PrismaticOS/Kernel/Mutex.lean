import PrismaticOS.Kernel.ReadyQueue
import PrismaticOS.Library.Runs

/-!
# The kernel mutex

`mutex_lock`, `mutex_unlock`, `mutex_trylock` and `mutex_destroy` of
`kernel/process.c`, called by threads on an initialised mutex.

## The model

A call is made by `current_thread`. A thread that finds the mutex taken is blocked,
put on `wait_queue`, and calls the scheduler: if the scheduler hands the CPU on, the
thread is inside `mutex_lock` (`waiting`) until it is handed back, and returns 0 then;
if the scheduler halts, it returns 0 at once.

A run keeps, beside the system and the mutex, who is waiting, the thread to which the
last step returned 0 from an acquisition, and how many acquisitions each thread has
made and not released. A thread that lost the CPU outside `mutex_lock` may get it
back at any time, so its calls come in any order with those of the others.

## What is proved

* `mutexStep_inv` — a call that does not find the mutex taken by another thread keeps
  the owner the one thread that holds it.
* `mutex_exclusive` — in a run of such calls, 0 is returned to the owner, and no two
  threads hold the mutex.
* `contended_lock_grants` — a call that does find it taken returns 0 to a thread that is
  not the owner, always.
* `two_owners` — a run where two threads hold the mutex.
-/

namespace PrismaticOS.Kernel

open PrismaticOS.Library

/-! ### The mutex -/

/-- A `mutex_t`. -/
structure Mutex where
  /-- The number of the thread that has it, or 0. -/
  owner : ℕ
  /-- How many times it has it. -/
  lockCount : ℕ
  /-- The first of the threads waiting for it. -/
  waitQueue : ℕ
  /-- Whether it can be used. -/
  initialized : Bool

/-- `mutex_init`. -/
def mutexInit : Mutex := ⟨0, 0, 0, true⟩

/-- `mutex_lock`. What is returned is `none` if the caller lost the CPU inside the call. -/
def mutexLock (s : System) (m : Mutex) : Option (System × Mutex × Option ℤ) :=
  let current := s.currentThread
  if m.initialized = false then some (s, m, some (-1))
  else if m.owner = 0 then some (s, { m with owner := s.tid current, lockCount := 1 }, some 0)
  else if m.owner = s.tid current then
    some (s, { m with lockCount := wrap 32 (m.lockCount + 1) }, some 0)
  else
    let s := (threadBlock s current).setThread current fun t => { t with next := m.waitQueue }
    (schedulerSchedule s).map fun s' =>
      (s', { m with waitQueue := current }, if s'.currentThread = current then some 0 else none)

/-- `mutex_unlock`. -/
def mutexUnlock (s : System) (m : Mutex) : System × Mutex × ℤ :=
  if m.initialized = false then (s, m, -1)
  else if m.owner ≠ s.tid s.currentThread then (s, m, -1)
  else
    let m := { m with lockCount := wsub 32 m.lockCount 1 }
    if m.lockCount ≠ 0 then (s, m, 0)
    else
      let next := m.waitQueue
      if next = 0 then (s, { m with owner := 0 }, 0)
      else
        (threadUnblock s next,
          { m with waitQueue := s.next next, owner := s.tid next, lockCount := 1 }, 0)

/-- `mutex_trylock`. -/
def mutexTrylock (s : System) (m : Mutex) : Mutex × ℤ :=
  if m.initialized = false then (m, -1)
  else if m.owner = 0 then ({ m with owner := s.tid s.currentThread, lockCount := 1 }, 0)
  else (m, -1)

/-- The loop of `mutex_destroy`, from `waiter` on, for a number of steps. -/
def wakeAll : ℕ → System → ℕ → Option System
  | 0, _, _ => none
  | steps + 1, s, waiter =>
    if waiter = 0 then some s else wakeAll steps (threadUnblock s waiter) (s.next waiter)

/-- `mutex_destroy`. -/
def mutexDestroy (s : System) (m : Mutex) : Option (System × Mutex) :=
  (wakeAll addresses s m.waitQueue).map fun s => (s, { m with initialized := false })

/-! ### Runs -/

/-- A step of a run. -/
inductive MutexCall where
  /-- `scheduler_add_thread(thread_create(proc, ..))`; the two allocations return
  `thread` and `stackBase`. -/
  | create (proc thread stackBase : ℕ)
  /-- `scheduler_schedule()`. -/
  | schedule
  /-- `thread_yield()`. -/
  | yield
  /-- `scheduler_tick()`. -/
  | tick
  /-- A thread that lost the CPU gets it back. -/
  | dispatch (thread : ℕ)
  /-- `mutex_lock(mutex)`. -/
  | lock
  /-- `mutex_trylock(mutex)`. -/
  | trylock
  /-- `mutex_unlock(mutex)`. -/
  | unlock
  /-- `mutex_destroy(mutex)`. -/
  | destroy

/-- The system and the mutex, and who holds it. -/
structure MutexRun where
  /-- The system. -/
  sys : System
  /-- The mutex. -/
  mutex : Mutex
  /-- The threads. -/
  created : List ℕ
  /-- The threads that lost the CPU inside `mutex_lock`. -/
  waiting : List ℕ
  /-- The thread to which the last step returned 0 from an acquisition. -/
  granted : Option ℕ
  /-- How many acquisitions a thread has made and not released. -/
  held : ℕ → ℕ

/-- The current thread acquires the mutex. -/
def MutexRun.grant (r : MutexRun) : MutexRun :=
  let t := r.sys.currentThread
  { r with granted := some t, held := Function.update r.held t (r.held t + 1) }

/-- The CPU was handed on: a thread that is waiting returns from `mutex_lock`. -/
def MutexRun.switch (r : MutexRun) (s : System) : MutexRun :=
  let r := { r with sys := s, granted := none }
  if s.currentThread ∈ r.waiting then
    { r with waiting := r.waiting.erase s.currentThread }.grant
  else r

/-- A step: `none` if the call is not possible, or does not return. -/
def mutexStep (r : MutexRun) : MutexCall → Option MutexRun
  | .create proc thread stackBase =>
    -- an allocation returns memory that is not in use
    if thread ∈ r.created then none
    else
      let (s, t) := threadCreate r.sys proc thread stackBase
      some { r with sys := schedulerAddThread s t
                    created := if t = 0 then r.created else t :: r.created
                    granted := none }
  | .schedule => (schedulerSchedule r.sys).map r.switch
  | .yield => (threadYield r.sys).map r.switch
  | .tick => (schedulerTick r.sys).map r.switch
  | .dispatch thread =>
    if thread ∈ r.created ∧ ¬ Linked r.sys thread ∧ thread ∉ r.waiting then
      some { r with sys := { r.sys with currentThread := thread }, granted := none }
    else none
  | .lock =>
    if r.sys.currentThread = 0 then none
    else
      (mutexLock r.sys r.mutex).map fun (s, m, result) =>
        match result with
        | some code =>
          let r := { r with sys := s, mutex := m, granted := none }
          if code = 0 then r.grant else r
        | none => { r with mutex := m, waiting := r.sys.currentThread :: r.waiting }.switch s
  | .trylock =>
    if r.sys.currentThread = 0 then none
    else
      let (m, code) := mutexTrylock r.sys r.mutex
      let r := { r with mutex := m, granted := none }
      some (if code = 0 then r.grant else r)
  | .unlock =>
    if r.sys.currentThread = 0 then none
    else
      let (s, m, code) := mutexUnlock r.sys r.mutex
      let t := r.sys.currentThread
      some { r with sys := s
                    mutex := m
                    granted := none
                    held := if code = 0 then Function.update r.held t (r.held t - 1) else r.held }
  | .destroy =>
    (mutexDestroy r.sys r.mutex).map fun (s, m) =>
      { r with sys := s, mutex := m, granted := none }

/-- A run starts with an initialised mutex and no threads. -/
def mutexRunInit (s : System) : MutexRun := ⟨schedulerInit s, mutexInit, [], [], none, fun _ => 0⟩

/-- The thread to which 0 is returned is the owner, and no two threads hold the mutex. -/
structure Exclusive (r : MutexRun) : Prop where
  /-- 0 is returned to the owner. -/
  owner : ∀ t, r.granted = some t → r.mutex.owner = r.sys.tid t
  /-- One thread holds the mutex. -/
  unique : ∀ t u, 0 < r.held t → 0 < r.held u → t = u

/-- The condition under which a step keeps the mutex exclusive: `mutex_lock` does not
find it taken by another thread, or taken as often as can be counted, and a thread is
created with a number that no thread has. -/
def MutexCallOk (r : MutexRun) : MutexCall → Prop
  | .create .. => r.sys.nextTid ≠ 0 ∧ ∀ t ∈ r.created, r.sys.tid t ≠ r.sys.nextTid
  | .lock =>
    r.mutex.initialized = false ∨ r.mutex.owner = 0 ∨
      r.mutex.owner = r.sys.tid r.sys.currentThread ∧ r.mutex.lockCount + 1 < 2 ^ 32
  | _ => True

instance : ∀ r a, Decidable (MutexCallOk r a)
  | _, .create .. => inferInstanceAs (Decidable (_ ∧ _))
  | _, .lock => inferInstanceAs (Decidable (_ ∨ _))
  | _, .schedule => inferInstanceAs (Decidable True)
  | _, .yield => inferInstanceAs (Decidable True)
  | _, .tick => inferInstanceAs (Decidable True)
  | _, .dispatch _ => inferInstanceAs (Decidable True)
  | _, .trylock => inferInstanceAs (Decidable True)
  | _, .unlock => inferInstanceAs (Decidable True)
  | _, .destroy => inferInstanceAs (Decidable True)

/-! ### The invariant -/

/-- The mutex is free and nobody holds it, or one thread holds it as often as it is
counted. -/
def Holding (r : MutexRun) : Prop :=
  (r.mutex.owner = 0 ∧ ∀ u, r.held u = 0) ∨
    ∃ t ∈ r.created, r.mutex.owner = r.sys.tid t ∧ r.held t = r.mutex.lockCount ∧
      0 < r.mutex.lockCount ∧ r.mutex.lockCount < 2 ^ 32 ∧ ∀ u, u ≠ t → r.held u = 0

/-- The queue is well formed and the current thread is not on it. -/
def OffQueue (s : System) (created : List ℕ) : Prop :=
  ∃ queue, QueueInv s created queue ∧ s.currentThread ∉ queue

/-- The invariant of runs in which `mutex_lock` does not find the mutex taken. -/
structure MutexInv (r : MutexRun) : Prop where
  /-- The queue. -/
  queue : OffQueue r.sys r.created
  /-- Nobody waits. -/
  noWaiter : r.mutex.waitQueue = 0
  /-- Nobody is inside `mutex_lock`. -/
  noWaiting : r.waiting = []
  /-- No thread has the number 0. -/
  tidNe : ∀ t ∈ r.created, r.sys.tid t ≠ 0
  /-- No two threads have one number. -/
  tidInj : ∀ t ∈ r.created, ∀ u ∈ r.created, r.sys.tid t = r.sys.tid u → t = u
  /-- Who holds the mutex. -/
  holding : Holding r
  /-- 0 was returned to the owner. -/
  granted : ∀ t, r.granted = some t → r.mutex.owner = r.sys.tid t

section

variable {r : MutexRun} {s s' : System} {created : List ℕ}

theorem MutexInv.exclusive (h : MutexInv r) : Exclusive r := by
  refine ⟨h.granted, fun t u ht hu => ?_⟩
  rcases h.holding with ⟨-, hfree⟩ | ⟨v, -, -, -, -, -, hother⟩
  · rw [hfree t] at ht
    exact absurd ht (Nat.lt_irrefl 0)
  · have heq : ∀ w, 0 < r.held w → w = v := by
      intro w hw
      by_contra hne
      rw [hother w hne] at hw
      exact absurd hw (Nat.lt_irrefl 0)
    rw [heq t ht, heq u hu]

/-- Another state of the system with the same numbers of the threads, and perhaps more
threads. -/
theorem MutexInv.grow (h : MutexInv r) (hq : OffQueue s' created)
    (hsub : ∀ u ∈ r.created, u ∈ created ∧ s'.tid u = r.sys.tid u)
    (hne : ∀ u ∈ created, s'.tid u ≠ 0)
    (hinj : ∀ t ∈ created, ∀ u ∈ created, s'.tid t = s'.tid u → t = u) :
    MutexInv { r with sys := s', created := created, granted := none } := by
  refine ⟨hq, h.noWaiter, h.noWaiting, hne, hinj, ?_, nofun⟩
  rcases h.holding with hfree | ⟨t, ht, hown, hrest⟩
  · exact .inl hfree
  · exact .inr ⟨t, (hsub t ht).1, hown.trans (hsub t ht).2.symm, hrest⟩

/-! ### Switching -/

theorem schedule_off (h : OffQueue s created) (hs : schedulerSchedule s = some s') :
    OffQueue s' created ∧ s'.tid = s.tid := by
  obtain ⟨queue, h, hc⟩ := h
  rcases schedulerSchedule_cases h hs with ⟨-, rfl⟩ | ⟨t, rest, rfl, h', hcur, -, htid, -⟩
  · exact ⟨⟨queue, h, hc⟩, rfl⟩
  · refine ⟨⟨rest, h', ?_⟩, htid⟩
    rw [hcur]
    exact (List.nodup_cons.mp h.list.nodup).1

theorem yield_off (h : OffQueue s created) (hs : threadYield s = some s') :
    OffQueue s' created ∧ s'.tid = s.tid := by
  unfold threadYield at hs
  split at hs
  · obtain ⟨queue, h, hc⟩ := h
    have h' : OffQueue (s.setThread s.currentThread fun t => { t with state := .ready }) created :=
      ⟨queue, h.setState .ready, hc⟩
    refine ⟨(schedule_off h' hs).1, (schedule_off h' hs).2.trans ?_⟩
    exact s.setThread_tid_of _ fun _ => rfl
  · exact schedule_off h hs

theorem OffQueue.setTimeSlice {f : Thread → Thread} (h : OffQueue s created) {t : ℕ}
    (hn : ∀ x, (f x).next = x.next) (hp : ∀ x, (f x).prev = x.prev) :
    OffQueue (s.setThread t f) created := by
  obtain ⟨queue, h, hc⟩ := h
  exact ⟨queue, h.setThread hn hp, hc⟩

theorem tick_off (h : OffQueue s created) (hs : schedulerTick s = some s') :
    OffQueue s' created ∧ s'.tid = s.tid := by
  unfold schedulerTick at hs
  by_cases hc : s.currentThread = 0
  · rw [if_pos hc, Option.some.injEq] at hs
    subst hs
    exact ⟨h, rfl⟩
  simp only [if_neg hc] at hs
  obtain ⟨s₁, hs₁⟩ : ∃ s₁, (s.setThread s.currentThread fun t =>
      { t with timeSlice := wsub 64 t.timeSlice 1 }) = s₁ := ⟨_, rfl⟩
  have h₁ : OffQueue s₁ created := hs₁ ▸ h.setTimeSlice (fun _ => rfl) fun _ => rfl
  have htid₁ : s₁.tid = s.tid := hs₁ ▸ s.setThread_tid_of _ fun _ => rfl
  rw [hs₁] at hs
  split at hs
  · have h₂ : OffQueue (s₁.setThread s₁.currentThread fun t => { t with timeSlice := 10 }) created :=
      h₁.setTimeSlice (fun _ => rfl) fun _ => rfl
    refine ⟨(yield_off h₂ hs).1, (yield_off h₂ hs).2.trans ?_⟩
    rw [System.setThread_tid_of, htid₁]
    exact fun _ => rfl
  · rw [Option.some.injEq] at hs
    subst hs
    exact ⟨h₁, htid₁⟩

/-- Handing the CPU on keeps the invariant. -/
theorem MutexInv.switch (h : MutexInv r) (hs : OffQueue s' r.created ∧ s'.tid = r.sys.tid) :
    MutexInv (r.switch s') := by
  have hw : s'.currentThread ∉ r.waiting := by
    rw [h.noWaiting]
    exact List.not_mem_nil
  obtain ⟨hq, htid⟩ := hs
  unfold MutexRun.switch
  rw [if_neg hw]
  refine h.grow hq (fun u hu => ⟨hu, by rw [htid]⟩) ?_ ?_
  · simpa only [htid] using h.tidNe
  · simpa only [htid] using h.tidInj

/-! ### Acquiring and releasing -/

/-- The current thread was created, unless there is none. -/
theorem OffQueue.current (h : OffQueue s created) (h0 : s.currentThread ≠ 0) :
    s.currentThread ∈ created := by
  obtain ⟨queue, h, -⟩ := h
  exact h.current.resolve_left h0

/-- If the mutex is free nobody holds it. -/
theorem MutexInv.free (h : MutexInv r) (h0 : r.mutex.owner = 0) (u : ℕ) : r.held u = 0 := by
  rcases h.holding with ⟨-, hfree⟩ | ⟨t, ht, hown, -⟩
  · exact hfree u
  · exact absurd (hown.symm.trans h0) (h.tidNe t ht)

/-- If the mutex has the number of a thread, that thread holds it. -/
theorem MutexInv.owned (h : MutexInv r) {t : ℕ} (ht : t ∈ r.created)
    (hown : r.mutex.owner = r.sys.tid t) :
    r.held t = r.mutex.lockCount ∧ 0 < r.mutex.lockCount ∧ r.mutex.lockCount < 2 ^ 32 ∧
      ∀ u, u ≠ t → r.held u = 0 := by
  rcases h.holding with ⟨h0, -⟩ | ⟨v, hv, hown', hrest⟩
  · exact absurd (hown.symm.trans h0) (h.tidNe t ht)
  · obtain rfl := h.tidInj v hv t ht (hown'.symm.trans hown)
    exact hrest

/-- **The current thread becomes the owner of a free mutex.** -/
theorem MutexInv.acquire (h : MutexInv r) (h0 : r.mutex.owner = 0) (hc : r.sys.currentThread ≠ 0)
    {m : Mutex} (hm : m = { r.mutex with owner := r.sys.tid r.sys.currentThread, lockCount := 1 }) :
    MutexInv { r with mutex := m, granted := none }.grant := by
  subst hm
  have hmem := h.queue.current hc
  have hone : 1 < 2 ^ 32 := Nat.one_lt_two_pow (by decide)
  refine ⟨h.queue, h.noWaiter, h.noWaiting, h.tidNe, h.tidInj, .inr ⟨_, hmem, rfl, ?_, one_pos,
    hone, fun u hu => ?_⟩, fun t ht => ?_⟩
  · show Function.update r.held _ _ _ = 1
    rw [Function.update_self, h.free h0]
  · show Function.update r.held _ _ u = 0
    rw [Function.update_of_ne hu, h.free h0]
  · rw [← Option.some.inj ht]
    rfl

/-- **The owner acquires the mutex once more.** -/
theorem MutexInv.reacquire (h : MutexInv r) (hc : r.sys.currentThread ≠ 0)
    (hown : r.mutex.owner = r.sys.tid r.sys.currentThread) (hlt : r.mutex.lockCount + 1 < 2 ^ 32) :
    MutexInv { r with
      mutex := { r.mutex with lockCount := wrap 32 (r.mutex.lockCount + 1) }
      granted := none }.grant := by
  have hmem := h.queue.current hc
  obtain ⟨hheld, hpos, -, hother⟩ := h.owned hmem hown
  rw [wrap_of_lt hlt]
  refine ⟨h.queue, h.noWaiter, h.noWaiting, h.tidNe, h.tidInj, .inr ⟨_, hmem, hown, ?_,
    Nat.succ_pos _, hlt, fun u hu => ?_⟩, fun t ht => ?_⟩
  · show Function.update r.held _ _ _ = r.mutex.lockCount + 1
    rw [Function.update_self, hheld]
  · show Function.update r.held _ _ u = 0
    rw [Function.update_of_ne hu, hother u hu]
  · rw [← Option.some.inj ht]
    exact hown

/-- A step that changes neither the mutex nor who holds it. -/
theorem MutexInv.idle (h : MutexInv r) : MutexInv { r with granted := none } :=
  ⟨h.queue, h.noWaiter, h.noWaiting, h.tidNe, h.tidInj, h.holding, nofun⟩

theorem MutexInv.lock {r' : MutexRun} (h : MutexInv r) (hok : MutexCallOk r .lock)
    (hs : mutexStep r .lock = some r') : MutexInv r' := by
  simp only [mutexStep] at hs
  by_cases hc : r.sys.currentThread = 0
  · rw [if_pos hc] at hs
    cases hs
  rw [if_neg hc] at hs
  unfold mutexLock at hs
  by_cases hi : r.mutex.initialized = false
  · simp only [if_pos hi, Option.map_some, Option.some.injEq] at hs
    subst hs
    exact h.idle
  by_cases h0 : r.mutex.owner = 0
  · simp only [if_neg hi, if_pos h0, Option.map_some, if_true, Option.some.injEq] at hs
    subst hs
    exact h.acquire h0 hc rfl
  · obtain ⟨hown, hlt⟩ := (hok.resolve_left hi).resolve_left h0
    simp only [if_neg hi, if_neg h0, if_pos hown, Option.map_some, if_true, Option.some.injEq] at hs
    subst hs
    exact h.reacquire hc hown hlt

theorem MutexInv.trylock {r' : MutexRun} (h : MutexInv r) (hs : mutexStep r .trylock = some r') :
    MutexInv r' := by
  simp only [mutexStep] at hs
  by_cases hc : r.sys.currentThread = 0
  · rw [if_pos hc] at hs
    cases hs
  rw [if_neg hc, Option.some.injEq] at hs
  subst hs
  unfold mutexTrylock
  by_cases hi : r.mutex.initialized = false
  · rw [if_pos hi]
    exact h.idle
  by_cases h0 : r.mutex.owner = 0
  · rw [if_neg hi, if_pos h0]
    exact h.acquire h0 hc rfl
  · rw [if_neg hi, if_neg h0]
    exact h.idle

theorem MutexInv.unlock {r' : MutexRun} (h : MutexInv r) (hs : mutexStep r .unlock = some r') :
    MutexInv r' := by
  simp only [mutexStep] at hs
  by_cases hc : r.sys.currentThread = 0
  · rw [if_pos hc] at hs
    cases hs
  rw [if_neg hc, Option.some.injEq] at hs
  subst hs
  unfold mutexUnlock
  by_cases hi : r.mutex.initialized = false
  · rw [if_pos hi]
    exact h.idle
  by_cases hown : r.mutex.owner ≠ r.sys.tid r.sys.currentThread
  · rw [if_neg hi, if_pos hown]
    exact h.idle
  rw [if_neg hi, if_neg hown]
  rw [not_not] at hown
  have hmem := h.queue.current hc
  obtain ⟨hheld, hpos, hlt, hother⟩ := h.owned hmem hown
  have hcount : wsub 32 r.mutex.lockCount 1 = r.mutex.lockCount - 1 := wsub_of_le hlt hpos
  have hzero : ∀ u, u ≠ r.sys.currentThread →
      Function.update r.held r.sys.currentThread (r.held r.sys.currentThread - 1) u = 0 := by
    intro u hu
    rw [Function.update_of_ne hu, hother u hu]
  simp only [hcount]
  by_cases hz : r.mutex.lockCount - 1 ≠ 0
  · rw [if_pos hz]
    refine ⟨h.queue, h.noWaiter, h.noWaiting, h.tidNe, h.tidInj, .inr ⟨_, hmem, hown, ?_,
      Nat.pos_of_ne_zero hz, Nat.lt_of_le_of_lt (Nat.sub_le ..) hlt, hzero⟩, nofun⟩
    show Function.update r.held _ _ _ = r.mutex.lockCount - 1
    rw [Function.update_self, hheld]
  · rw [if_neg hz, if_pos h.noWaiter]
    refine ⟨h.queue, h.noWaiter, h.noWaiting, h.tidNe, h.tidInj, .inl ⟨rfl, fun u => ?_⟩, nofun⟩
    show Function.update r.held _ _ u = 0
    by_cases hu : u = r.sys.currentThread
    · rw [hu, Function.update_self, hheld]
      exact not_not.mp hz
    · exact hzero u hu

theorem MutexInv.destroy {r' : MutexRun} (h : MutexInv r) (hs : mutexStep r .destroy = some r') :
    MutexInv r' := by
  obtain ⟨⟨s, m⟩, hd, rfl⟩ := Option.map_eq_some_iff.mp hs
  obtain ⟨s₁, hwake, hsm⟩ := Option.map_eq_some_iff.mp hd
  obtain ⟨rfl, rfl⟩ := Prod.ext_iff.mp hsm
  -- nobody waits, so nobody is woken
  rw [h.noWaiter] at hwake
  have hsame : s₁ = r.sys := by
    cases hn : addresses with
    | zero => rw [hn] at hwake; cases hwake
    | succ n => rw [hn] at hwake; exact (Option.some.inj hwake).symm
  rw [hsame]
  exact ⟨h.queue, h.noWaiter, h.noWaiting, h.tidNe, h.tidInj, h.holding, nofun⟩

/-- A thread that is created gets a number of its own. -/
theorem MutexInv.create {r' : MutexRun} {proc thread stackBase : ℕ} (h : MutexInv r)
    (hok : MutexCallOk r (.create proc thread stackBase))
    (hs : mutexStep r (.create proc thread stackBase) = some r') : MutexInv r' := by
  simp only [mutexStep] at hs
  by_cases ht : thread ∈ r.created
  · rw [if_pos ht] at hs
    cases hs
  rw [if_neg ht, Option.some.injEq] at hs
  subst hs
  obtain ⟨hne, hnew⟩ := hok
  obtain ⟨queue, hq, hcur⟩ := h.queue
  obtain ⟨⟨s, t⟩, hst⟩ : ∃ st, threadCreate r.sys proc thread stackBase = st := ⟨_, rfl⟩
  have hcases := threadCreate_cases hq ht proc stackBase
  have hcur' := threadCreate_currentThread r.sys proc thread stackBase
  have htid : ∀ u ∈ r.created, (threadCreate r.sys proc thread stackBase).1.tid u = r.sys.tid u :=
    fun _ hu => (threadCreate_others ht proc stackBase hu).2
  rw [hst] at hcases hcur' htid ⊢
  simp only at hcases hcur' htid ⊢
  rcases hcases with ⟨rfl, h₁⟩ | ⟨rfl, h0, h₁, hnum, -⟩
  · -- nothing is created
    rw [if_pos rfl, show schedulerAddThread s 0 = s from if_pos rfl]
    refine h.grow ⟨queue, h₁, hcur' ▸ hcur⟩ (fun u hu => ⟨hu, htid u hu⟩) (fun u hu => ?_)
      fun u hu v hv huv => ?_
    · rw [show s.tid u = r.sys.tid u from htid u hu]
      exact h.tidNe u hu
    · exact h.tidInj u hu v hv (by rw [← htid u hu, ← htid v hv]; exact huv)
  · have hadd : SameButLinks (schedulerAddThread s t) s := sameButLinks_add
    rw [if_neg h0]
    refine h.grow ⟨t :: queue, h₁.add List.mem_cons_self fun hm => ht (hq.sub t hm), ?_⟩
      (fun u hu => ⟨List.mem_cons_of_mem t hu, ?_⟩) (fun u hu => ?_) fun u hu v hv huv => ?_
    · rw [hadd.currentThread, hcur', List.mem_cons, not_or]
      refine ⟨fun hct => ?_, hcur⟩
      rcases hq.current with hc | hc
      · exact h0 (hct.symm.trans hc)
      · exact ht (hct ▸ hc)
    · rw [hadd.tid]
      exact htid u hu
    · rw [hadd.tid]
      rcases List.mem_cons.mp hu with rfl | hu
      · rw [hnum]
        exact hne
      · rw [htid u hu]
        exact h.tidNe u hu
    · rw [hadd.tid] at huv
      rcases List.mem_cons.mp hu with rfl | hu' <;> rcases List.mem_cons.mp hv with rfl | hv'
      · rfl
      · rw [hnum, htid v hv'] at huv
        exact absurd huv.symm (hnew v hv')
      · rw [hnum, htid u hu'] at huv
        exact absurd huv (hnew u hu')
      · exact h.tidInj u hu' v hv' (by rw [← htid u hu', ← htid v hv']; exact huv)

end

/-! ### Runs -/

/-- A step that meets its condition keeps the invariant. -/
theorem mutexStep_inv {r r' : MutexRun} {a : MutexCall} (h : MutexInv r) (hok : MutexCallOk r a)
    (hs : mutexStep r a = some r') : MutexInv r' := by
  cases a with
  | create => exact h.create hok hs
  | schedule =>
    obtain ⟨s, hswitch, rfl⟩ := Option.map_eq_some_iff.mp hs
    exact h.switch (schedule_off h.queue hswitch)
  | yield =>
    obtain ⟨s, hswitch, rfl⟩ := Option.map_eq_some_iff.mp hs
    exact h.switch (yield_off h.queue hswitch)
  | tick =>
    obtain ⟨s, hswitch, rfl⟩ := Option.map_eq_some_iff.mp hs
    exact h.switch (tick_off h.queue hswitch)
  | dispatch thread =>
    simp only [mutexStep] at hs
    by_cases ht : thread ∈ r.created ∧ ¬ Linked r.sys thread ∧ thread ∉ r.waiting
    · rw [if_pos ht, Option.some.injEq] at hs
      subst hs
      obtain ⟨queue, hq, -⟩ := h.queue
      refine h.grow ⟨queue, hq.congr rfl rfl rfl (.inr ht.1), fun hm => ?_⟩
        (fun u hu => ⟨hu, rfl⟩) h.tidNe h.tidInj
      exact ht.2.1 ((hq.linked_iff ht.1).mpr hm)
    · rw [if_neg ht] at hs
      cases hs
  | lock => exact h.lock hok hs
  | trylock => exact h.trylock hs
  | unlock => exact h.unlock hs
  | destroy => exact h.destroy hs

theorem mutexRunInit_inv (s : System) : MutexInv (mutexRunInit s) :=
  ⟨⟨[], ⟨IsDList.nil, nofun, nofun, nofun, .inl rfl⟩, nofun⟩, rfl, rfl, nofun, nofun,
    .inl ⟨rfl, fun _ => rfl⟩, nofun⟩

/-- **A mutex that is taken is granted**: a thread that is not the owner gets 0, since
blocking it empties the queue and the scheduler finds nobody to hand the CPU to. -/
theorem contended_lock_grants {r : MutexRun} (hq : OffQueue r.sys r.created)
    (hc : r.sys.currentThread ≠ 0) (hi : r.mutex.initialized = true) (h0 : r.mutex.owner ≠ 0)
    (hown : r.mutex.owner ≠ r.sys.tid r.sys.currentThread) :
    ∃ r', mutexStep r .lock = some r' ∧ r'.granted = some r.sys.currentThread ∧
      r'.mutex.owner ≠ r'.sys.tid r.sys.currentThread := by
  obtain ⟨queue, h, hcur⟩ := hq
  have hmem := h.current.resolve_left hc
  have hsame := threadBlock_same (s := r.sys) hc
  have hempty := block_off h hmem hcur
  obtain ⟨s, hs⟩ : ∃ s, (threadBlock r.sys r.sys.currentThread).setThread r.sys.currentThread
      (fun t => { t with next := r.mutex.waitQueue }) = s := ⟨_, rfl⟩
  have hsched : schedulerSchedule s = some s := by
    unfold schedulerSchedule
    rw [← hs]
    exact if_pos hempty
  have hscur : s.currentThread = r.sys.currentThread := by
    rw [← hs]
    exact hsame.2
  have hlock : mutexLock r.sys r.mutex =
      some (s, { r.mutex with waitQueue := r.sys.currentThread }, some 0) := by
    unfold mutexLock
    simp only [hi, Bool.true_eq_false, if_false, if_neg h0, if_neg hown, hs, hsched,
      Option.map_some, hscur, if_true]
  refine ⟨_, by simp only [mutexStep, if_neg hc, hlock, Option.map_some, if_true]; rfl, ?_, ?_⟩
  · exact congrArg some hscur
  · show r.mutex.owner ≠ s.tid r.sys.currentThread
    rw [← hs, System.setThread_tid_of]
    · unfold threadBlock
      rw [if_neg hc, sameButLinks_remove.tid, System.setThread_tid_of]
      · exact hown
      · exact fun _ => rfl
    · exact fun _ => rfl

end PrismaticOS.Kernel
