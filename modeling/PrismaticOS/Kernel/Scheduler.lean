import PrismaticOS.Kernel.ReadyQueue
import PrismaticOS.Library.Runs

/-!
# No thread is lost

Runs of the scheduler of `kernel/process.c`: threads are created and queued, yield,
sleep, are blocked and unblocked, and the timer ticks.

A thread is ready if its state says so, and it gets the CPU again only if it is on
`ready_queue`. The two are kept by different functions. `thread_yield` makes the
current thread ready and does not queue it; `thread_block` takes a thread off the
queue without asking whether it is on it, and a thread that is not has empty links,
so that the whole queue goes.

## What is proved

* `schedStep_inv` — a call that avoids this keeps every ready thread on the queue.
* `no_thread_lost` — a run loses no thread exactly if each of its calls does.
* `ready_thread_lost` — a run of four calls that loses one.
-/

namespace PrismaticOS.Kernel

open PrismaticOS.Library

/-! ### Runs -/

/-- A call of the scheduler. -/
inductive SchedCall where
  /-- `scheduler_add_thread(thread_create(proc, ..))`; the two allocations return
  `thread` and `stackBase`. -/
  | create (proc thread stackBase : ℕ)
  /-- `thread_yield()`. -/
  | yield
  /-- `thread_sleep(milliseconds)`. -/
  | sleep (milliseconds : ℕ)
  /-- `thread_block(thread)`. -/
  | block (thread : ℕ)
  /-- `thread_unblock(thread)`. -/
  | unblock (thread : ℕ)
  /-- `scheduler_tick()`. -/
  | tick
  /-- `scheduler_schedule()`. -/
  | schedule

/-- The system, and the threads created so far. -/
structure SchedRun where
  /-- The system. -/
  sys : System
  /-- The threads. -/
  created : List ℕ

/-- A call: `none` if it is given a pointer that is not a thread, unblocks a thread
that is not blocked, or does not return. -/
def schedStep (r : SchedRun) : SchedCall → Option SchedRun
  | .create proc thread stackBase =>
    -- an allocation returns memory that is not in use
    if thread ∈ r.created then none
    else
      let (s, t) := threadCreate r.sys proc thread stackBase
      some ⟨schedulerAddThread s t, if t = 0 then r.created else t :: r.created⟩
  | .yield => (threadYield r.sys).map (SchedRun.mk · r.created)
  | .sleep _ => (threadSleep r.sys).map (SchedRun.mk · r.created)
  | .block thread =>
    if thread ∈ r.created then some ⟨threadBlock r.sys thread, r.created⟩ else none
  | .unblock thread =>
    if thread ∈ r.created ∧ r.sys.state thread = .blocked then
      some ⟨threadUnblock r.sys thread, r.created⟩
    else none
  | .tick => (schedulerTick r.sys).map (SchedRun.mk · r.created)
  | .schedule => (schedulerSchedule r.sys).map (SchedRun.mk · r.created)

/-- Every ready thread but the current one is on the queue once, and only ready
threads are. -/
def NothingLost (r : SchedRun) : Prop :=
  ∃ queue, Seg r.sys.next r.sys.readyQueue queue 0 ∧
    (∀ t ∈ r.created, t ≠ r.sys.currentThread → r.sys.state t = .ready → queue.count t = 1) ∧
      ∀ t ∈ queue, t ∈ r.created ∧ r.sys.state t = .ready

/-! ### When a call loses no thread -/

/-- Making the current thread ready and calling the scheduler loses no thread: there is
nothing to switch to, no current thread, or it is on the queue. -/
def YieldOk (s : System) : Prop :=
  s.readyQueue = 0 ∨ s.currentThread = 0 ∨ Linked s s.currentThread

instance (s : System) : Decidable (YieldOk s) := inferInstanceAs (Decidable (_ ∨ _))

/-- The condition under which a call loses no thread. -/
def SchedCallOk (r : SchedRun) : SchedCall → Prop
  | .create .. => True
  | .yield => YieldOk r.sys
  | .sleep _ =>
    r.sys.currentThread = 0 ∨ ¬ Linked r.sys r.sys.currentThread ∨
      r.sys.readyQueue = r.sys.currentThread
  | .block thread =>
    Linked r.sys thread ∨ r.sys.readyQueue = 0 ∨
      r.sys.readyQueue = r.sys.currentThread ∧ r.sys.next r.sys.currentThread = 0
  | .unblock _ => True
  | .tick =>
    r.sys.currentThread = 0 ∨ 0 < wsub 64 (r.sys.threads r.sys.currentThread).timeSlice 1 ∨
      YieldOk r.sys
  | .schedule => YieldOk r.sys ∨ r.sys.state r.sys.currentThread ≠ .ready

instance : ∀ r a, Decidable (SchedCallOk r a)
  | _, .create .. => inferInstanceAs (Decidable True)
  | r, .yield => inferInstanceAs (Decidable (YieldOk r.sys))
  | _, .sleep _ => inferInstanceAs (Decidable (_ ∨ _))
  | _, .block _ => inferInstanceAs (Decidable (_ ∨ _))
  | _, .unblock _ => inferInstanceAs (Decidable True)
  | _, .tick => inferInstanceAs (Decidable (_ ∨ _))
  | _, .schedule => inferInstanceAs (Decidable (_ ∨ _))

/-! ### The invariant -/

section

variable {s s' : System} {t : ℕ} {created queue queue' rest : List ℕ}

/-- The queue has the ready threads. -/
structure Queued (s : System) (created queue : List ℕ) : Prop where
  /-- A thread on the queue is ready. -/
  ready : ∀ t ∈ queue, s.state t = .ready
  /-- A ready thread that does not have the CPU is on the queue. -/
  queued : ∀ t ∈ created, t ≠ s.currentThread → s.state t = .ready → t ∈ queue

/-- The queue is a list of the ready threads. -/
def SchedInv (r : SchedRun) : Prop :=
  ∃ queue, QueueInv r.sys r.created queue ∧ Queued r.sys r.created queue

/-- The head is on the queue once. -/
theorem QueueInv.not_mem_tail (h : QueueInv s created queue) (hr : s.readyQueue = t) :
    t ∉ queue.tail := by
  cases queue with
  | nil => exact List.not_mem_nil
  | cons u rest =>
    have hu : s.readyQueue = u := h.list.seg.1
    rw [← hr, hu]
    exact (List.nodup_cons.mp h.list.nodup).1

/-- A thread on the queue that is not the head comes later. -/
theorem QueueInv.mem_tail (h : QueueInv s created queue) (ht : t ∈ queue)
    (hr : s.readyQueue ≠ t) : t ∈ queue.tail := by
  cases queue with
  | nil => cases ht
  | cons u rest =>
    have hu : s.readyQueue = u := h.list.seg.1
    exact (List.mem_cons.mp ht).resolve_left fun heq => hr (hu.trans heq.symm)

/-- A head with nothing after it is the whole queue. -/
theorem QueueInv.eq_of_single {u : ℕ} (h : QueueInv s created queue) (hr : s.readyQueue = t)
    (hn : s.next t = 0) (hu : u ∈ queue) : u = t := by
  have hseg := h.list.seg
  cases queue with
  | nil => cases hu
  | cons v rest =>
    have hv : v = t := hseg.1.symm.trans hr
    have hrest : rest = [] := by
      refine hseg.2.2.eq_nil_iff.mpr ?_
      rw [hv]
      exact hn
    rw [hrest, List.mem_singleton] at hu
    exact hu.trans hv

/-- Any other queue has another thread: the head, or the one after it. -/
theorem QueueInv.exists_other (h : QueueInv s created queue) (hr : s.readyQueue ≠ 0)
    (hone : s.readyQueue = t → s.next t ≠ 0) : ∃ u ∈ queue, u ≠ t := by
  have hseg := h.list.seg
  cases queue with
  | nil => exact absurd hseg hr
  | cons v rest =>
    have hhead : s.readyQueue = v := hseg.1
    by_cases hv : v = t
    · cases rest with
      | nil => exact absurd (hv ▸ hseg.2.2) (hone (hhead.trans hv))
      | cons u rest =>
        refine ⟨u, by simp, ?_⟩
        rintro rfl
        exact (List.nodup_cons.mp h.list.nodup).1 (hv ▸ List.mem_cons_self)
    · exact ⟨v, List.mem_cons_self, hv⟩

theorem QueueInv.nothingLost_iff (h : QueueInv s created queue) :
    NothingLost ⟨s, created⟩ ↔ Queued s created queue := by
  constructor
  · rintro ⟨queue', hseg, hq, hr⟩
    obtain rfl := h.list.seg.unique hseg
    refine ⟨fun t ht => (hr t ht).2, fun t ht hc hs => ?_⟩
    exact List.count_pos_iff.mp (by rw [hq t ht hc hs]; exact one_pos)
  · intro hq
    refine ⟨queue, h.list.seg, fun t ht hc hs => ?_, fun t ht => ⟨h.sub t ht, hq.ready t ht⟩⟩
    exact List.count_eq_one_of_mem h.list.nodup (hq.queued t ht hc hs)

theorem SchedInv.nothingLost {r : SchedRun} (h : SchedInv r) : NothingLost r := by
  obtain ⟨queue, hq, hr⟩ := h
  exact hq.nothingLost_iff.mpr hr

theorem QueueInv.current_mem (h : QueueInv s created queue) (h0 : s.currentThread ≠ 0) :
    s.currentThread ∈ created := h.current.resolve_left h0

/-- A call of the scheduler keeps the ready threads queued if the thread that loses
the CPU is not ready or is on the queue. -/
theorem schedule_queued (h : QueueInv s created queue)
    (hr : ∀ t ∈ queue.tail, s.state t = .ready)
    (hq : ∀ t ∈ created, t ≠ s.currentThread → s.state t = .ready → t ∈ queue)
    (hc : queue = [] ∨ s.currentThread = 0 ∨ s.currentThread ∈ queue ∨
      s.state s.currentThread ≠ .ready)
    (hs : schedulerSchedule s = some s') :
    ∃ queue', QueueInv s' created queue' ∧ Queued s' created queue' := by
  rcases schedulerSchedule_cases h hs with ⟨rfl, rfl⟩ | ⟨t, rest, rfl, h', hcur, hst, -, -⟩
  · exact ⟨[], h, nofun, hq⟩
  have hnd := List.nodup_cons.mp h.list.nodup
  refine ⟨rest, h', fun u hu => ?_, fun u hu huc hus => ?_⟩
  · have hut : u ≠ t := fun he => hnd.1 (he ▸ hu)
    rw [hst, Function.update_of_ne hut]
    exact hr u hu
  · rw [hcur] at huc
    rw [hst, Function.update_of_ne huc] at hus
    have hmem : u ∈ t :: rest := by
      by_cases huc' : u = s.currentThread
      · subst huc'
        rcases hc with hc | hc | hc | hc
        · cases hc
        · exact absurd (hc ▸ hu) h.nonzero
        · exact hc
        · exact absurd hus hc
      · exact hq u hu huc' hus
    exact (List.mem_cons.mp hmem).resolve_left huc

/-- A call of the scheduler loses a thread that is ready and not on the queue, or
leaves one on it that is not ready. -/
theorem schedule_lost (h : QueueInv s created (t :: rest))
    (hc : s.currentThread ≠ 0) (hct : s.currentThread ≠ t)
    (hbad : s.state s.currentThread = .ready ∧ s.currentThread ∉ rest ∨
      s.state s.currentThread ≠ .ready ∧ s.currentThread ∈ rest)
    (hs : schedulerSchedule s = some s') : ¬ NothingLost ⟨s', created⟩ := by
  rcases schedulerSchedule_cases h hs with ⟨hnil, -⟩ | ⟨u, rest', hcons, h', hcur, hst, -, -⟩
  · cases hnil
  obtain ⟨rfl, rfl⟩ := List.cons.inj hcons
  rw [h'.nothingLost_iff]
  intro hq
  have hstate : s'.state s.currentThread = s.state s.currentThread := by
    rw [hst, Function.update_of_ne hct]
  rcases hbad with ⟨hready, hmem⟩ | ⟨hready, hmem⟩
  · exact hmem (hq.queued _ (h.current_mem hc) (hcur ▸ hct) (hstate.trans hready))
  · exact hready (hstate ▸ hq.ready _ hmem)

/-! ### What the calls do -/

theorem Queued.congr (h : Queued s created queue) (hs : s'.state = s.state)
    (hc : s'.currentThread = s.currentThread) : Queued s' created queue := by
  refine ⟨fun t ht => hs ▸ h.ready t ht, fun t ht htc hts => ?_⟩
  rw [hs] at hts
  rw [hc] at htc
  exact h.queued t ht htc hts

theorem QueueInv.yieldOk_iff (h : QueueInv s created queue) :
    YieldOk s ↔ queue = [] ∨ s.currentThread = 0 ∨ s.currentThread ∈ queue := by
  unfold YieldOk
  rw [h.list.seg.eq_nil_iff]
  by_cases hc : s.currentThread = 0
  · simp only [hc, true_or, or_true]
  · rw [h.linked_iff (h.current_mem hc)]

/-- The state in which `thread_yield` calls the scheduler. -/
theorem yield_ready (h : QueueInv s created queue) (hq : Queued s created queue) :
    ∃ s₁, threadYield s = schedulerSchedule s₁ ∧ QueueInv s₁ created queue ∧
      Queued s₁ created queue ∧ s₁.currentThread = s.currentThread ∧
        (s.currentThread ≠ 0 → s₁.state s.currentThread = .ready) := by
  unfold threadYield
  by_cases hc : s.currentThread ≠ 0
  · refine ⟨s.setThread s.currentThread fun x => { x with state := .ready }, by rw [if_pos hc],
      h.setState _, ?_, rfl, fun _ => ?_⟩
    · constructor
      · intro t ht
        rw [System.setState_state]
        by_cases htc : t = s.currentThread
        · rw [htc, Function.update_self]
        · rw [Function.update_of_ne htc]
          exact hq.ready t ht
      · intro t ht htc hts
        rw [System.setThread_currentThread] at htc
        rw [System.setState_state, Function.update_of_ne htc] at hts
        exact hq.queued t ht htc hts
    · rw [System.setState_state, Function.update_self]
  · exact ⟨s, by rw [if_neg hc], h, hq, rfl, fun h => absurd h hc⟩

theorem yield_queued (h : QueueInv s created queue) (hq : Queued s created queue) (hok : YieldOk s)
    (hs : threadYield s = some s') : ∃ queue', QueueInv s' created queue' ∧ Queued s' created queue' := by
  obtain ⟨s₁, hy, h₁, hq₁, hc, -⟩ := yield_ready h hq
  rw [hy] at hs
  refine schedule_queued h₁ (fun t ht => hq₁.ready t (List.mem_of_mem_tail ht)) hq₁.queued ?_ hs
  rw [hc]
  exact (h.yieldOk_iff.mp hok).imp id fun h => h.imp id .inl

theorem yield_lost (h : QueueInv s created queue) (hq : Queued s created queue) (hok : ¬ YieldOk s)
    (hs : threadYield s = some s') : ¬ NothingLost ⟨s', created⟩ := by
  obtain ⟨s₁, hy, h₁, -, hc, hready⟩ := yield_ready h hq
  rw [hy] at hs
  rw [h.yieldOk_iff] at hok
  cases queue with
  | nil => exact absurd (.inl rfl) hok
  | cons t rest =>
    have h0 : s.currentThread ≠ 0 := fun h0 => hok (.inr (.inl h0))
    have hmem : s.currentThread ∉ t :: rest := fun hm => hok (.inr (.inr hm))
    rw [List.mem_cons, not_or] at hmem
    refine schedule_lost h₁ (hc ▸ h0) (hc ▸ hmem.1) (.inl ⟨?_, hc ▸ hmem.2⟩) hs
    rw [hc]
    exact hready h0

/-- A tick counts the slice down, and yields when it is used up. -/
theorem tick_cases (h : QueueInv s created queue) (hq : Queued s created queue)
    (hs : schedulerTick s = some s') :
    ((s.currentThread = 0 ∨ 0 < wsub 64 (s.threads s.currentThread).timeSlice 1) ∧
        QueueInv s' created queue ∧ Queued s' created queue) ∨
      s.currentThread ≠ 0 ∧ wsub 64 (s.threads s.currentThread).timeSlice 1 = 0 ∧
        ∃ s₁, threadYield s₁ = some s' ∧ QueueInv s₁ created queue ∧ Queued s₁ created queue ∧
          s₁.currentThread = s.currentThread := by
  unfold schedulerTick at hs
  by_cases hc : s.currentThread = 0
  · rw [if_pos hc, Option.some.injEq] at hs
    subst hs
    exact .inl ⟨.inl hc, h, hq⟩
  simp only [if_neg hc] at hs
  obtain ⟨s₁, hs₁⟩ : ∃ s₁, (s.setThread s.currentThread fun t =>
      { t with timeSlice := wsub 64 t.timeSlice 1 }) = s₁ := ⟨_, rfl⟩
  have h₁ : QueueInv s₁ created queue := hs₁ ▸ h.setThread (fun _ => rfl) fun _ => rfl
  have hcur : s₁.currentThread = s.currentThread := by rw [← hs₁]; rfl
  have hq₁ : Queued s₁ created queue :=
    hq.congr (by rw [← hs₁]; exact s.setThread_state_of _ fun _ => rfl) hcur
  have hslice : (s₁.threads s₁.currentThread).timeSlice =
      wsub 64 (s.threads s.currentThread).timeSlice 1 := by
    rw [hcur, ← hs₁]
    unfold System.setThread
    simp only [Function.update_self]
  rw [hs₁, hslice] at hs
  by_cases h0 : wsub 64 (s.threads s.currentThread).timeSlice 1 ≤ 0
  · rw [if_pos h0] at hs
    refine .inr ⟨hc, Nat.le_zero.mp h0, _, hs, h₁.setThread (fun _ => rfl) fun _ => rfl,
      hq₁.congr (s₁.setThread_state_of _ fun _ => rfl) rfl, hcur⟩
  · rw [if_neg h0, Option.some.injEq] at hs
    subst hs
    exact .inl ⟨.inr (Nat.lt_of_not_le h0), h₁, hq₁⟩

/-- Sleeping loses no thread unless the thread that sleeps is on the queue, behind
another one. -/
theorem sleep_queued (h : QueueInv s created queue) (hq : Queued s created queue)
    (hok : s.currentThread = 0 ∨ s.currentThread ∉ queue.tail) (hs : threadSleep s = some s') :
    ∃ queue', QueueInv s' created queue' ∧ Queued s' created queue' := by
  unfold threadSleep at hs
  by_cases hc : s.currentThread = 0
  · rw [if_pos hc, Option.some.injEq] at hs
    subst hs
    exact ⟨queue, h, hq⟩
  rw [if_neg hc] at hs
  refine schedule_queued (h.setState .blocked) (fun t ht => ?_)
    (fun t ht htc hts => ?_) (.inr (.inr (.inr ?_))) hs
  · have htc : t ≠ s.currentThread := by
      rintro rfl
      exact hok.resolve_left hc ht
    rw [System.setState_state, Function.update_of_ne htc]
    exact hq.ready t (List.mem_of_mem_tail ht)
  · rw [System.setThread_currentThread] at htc
    rw [System.setState_state, Function.update_of_ne htc] at hts
    exact hq.queued t ht htc hts
  · rw [System.setThread_currentThread, System.setState_state, Function.update_self]
    nofun

theorem sleep_lost (h : QueueInv s created queue) (h0 : s.currentThread ≠ 0)
    (hmem : s.currentThread ∈ queue.tail) (hs : threadSleep s = some s') :
    ¬ NothingLost ⟨s', created⟩ := by
  unfold threadSleep at hs
  rw [if_neg h0] at hs
  cases queue with
  | nil => cases hmem
  | cons t rest =>
    have hct : s.currentThread ≠ t := by
      rintro rfl
      exact (List.nodup_cons.mp h.list.nodup).1 hmem
    refine schedule_lost (h.setState .blocked) h0 hct (.inr ⟨?_, hmem⟩) hs
    rw [System.setThread_currentThread, System.setState_state, Function.update_self]
    nofun

/-- Unblocking a thread queues it. -/
theorem unblock_queued (h : QueueInv s created queue) (hq : Queued s created queue)
    (ht : t ∈ created) (hb : s.state t = .blocked) :
    QueueInv (threadUnblock s t) created (t :: queue) ∧
      Queued (threadUnblock s t) created (t :: queue) := by
  have htq : t ∉ queue := by
    intro hm
    rw [hq.ready t hm] at hb
    cases hb
  have hsame := sameButLinks_add (s := s.setThread t fun x => { x with state := .ready }) (t := t)
  have hstate : (threadUnblock s t).state = Function.update s.state t .ready := by
    unfold threadUnblock
    rw [if_neg (h.ne_zero ht), hsame.state, System.setState_state]
  have hcur : (threadUnblock s t).currentThread = s.currentThread := by
    unfold threadUnblock
    rw [if_neg (h.ne_zero ht), hsame.currentThread]
    rfl
  refine ⟨?_, fun u hu => ?_, fun u hu huc hus => ?_⟩
  · unfold threadUnblock
    rw [if_neg (h.ne_zero ht)]
    exact (h.setState .ready).add ht htq
  · rw [hstate]
    by_cases hut : u = t
    · rw [hut, Function.update_self]
    · rw [Function.update_of_ne hut]
      exact hq.ready u ((List.mem_cons.mp hu).resolve_left hut)
  · rw [hcur] at huc
    rw [hstate] at hus
    by_cases hut : u = t
    · rw [hut]
      exact List.mem_cons_self
    · rw [Function.update_of_ne hut] at hus
      exact List.mem_cons_of_mem t (hq.queued u hu huc hus)

/-- Blocking a thread that is on the queue takes it off. -/
theorem block_queued (h : QueueInv s created queue) (hq : Queued s created queue)
    (ht : t ∈ queue) :
    ∃ queue', QueueInv (threadBlock s t) created queue' ∧ Queued (threadBlock s t) created queue' := by
  obtain ⟨hstate, hcur⟩ := threadBlock_same (s := s) (h.ne_zero (h.sub t ht))
  obtain ⟨l, r, rfl⟩ := List.append_of_mem ht
  have hinv : QueueInv (threadBlock s t) created (l ++ r) := by
    unfold threadBlock
    rw [if_neg (h.ne_zero (h.sub t ht))]
    exact (h.setState .blocked).remove
  have hnd := h.list.nodup
  refine ⟨l ++ r, hinv, fun u hu => ?_, fun u hu huc hus => ?_⟩
  · have hut : u ≠ t := by
      rintro rfl
      rw [List.nodup_append, List.nodup_cons] at hnd
      rcases List.mem_append.mp hu with hl | hr
      · exact hnd.2.2 u hl u List.mem_cons_self rfl
      · exact hnd.2.1.1 hr
    rw [hstate, Function.update_of_ne hut]
    refine hq.ready u ?_
    rw [List.mem_append, List.mem_cons]
    exact (List.mem_append.mp hu).imp id .inr
  · rw [hcur] at huc
    rw [hstate] at hus
    by_cases hut : u = t
    · rw [hut, Function.update_self] at hus
      cases hus
    · rw [Function.update_of_ne hut] at hus
      have hmem := hq.queued u hu huc hus
      rw [List.mem_append, List.mem_cons] at hmem
      exact List.mem_append.mpr (hmem.imp id fun h => h.resolve_left hut)

/-- With at most the current thread on the queue, nothing is lost by it. -/
theorem block_off_queued (h : QueueInv s created queue) (hq : Queued s created queue)
    (ht : t ∈ created) (htq : t ∉ queue) (hone : ∀ u ∈ queue, u = s.currentThread) :
    QueueInv (threadBlock s t) created [] ∧ Queued (threadBlock s t) created [] := by
  obtain ⟨hstate, hcur⟩ := threadBlock_same (s := s) (h.ne_zero ht)
  have hempty : ∀ u ∈ queue, s.next u = 0 ∧ s.prev u = 0 := by
    intro u hu
    constructor
    · by_contra h0
      have hn := hone _ (h.list.next_mem hu h0)
      obtain ⟨l, r, rfl⟩ := List.append_of_mem hu
      have hmid := h.list.next_mid
      cases r with
      | nil => exact h0 hmid
      | cons v r =>
        rw [List.headD_cons] at hmid
        have hnd := h.list.nodup
        rw [hone u hu, hone v (by simp)] at hnd
        simp [List.nodup_append] at hnd
    · by_contra h0
      exact h.list.prev_ne hu ((hone _ (h.list.prev_mem hu h0)).trans (hone u hu).symm)
  refine ⟨?_, nofun, fun u hu huc hus => ?_⟩
  · have h₁ : QueueInv (s.setThread t fun x => { x with state := .blocked }) created queue :=
      h.setState .blocked
    unfold threadBlock
    rw [if_neg (h.ne_zero ht)]
    refine h₁.remove_off ht htq fun u hu => ?_
    rw [System.setThread_next_of, System.setThread_prev_of]
    · exact hempty u hu
    all_goals exact fun _ => rfl
  · rw [hcur] at huc
    rw [hstate] at hus
    by_cases hut : u = t
    · rw [hut, Function.update_self] at hus
      cases hus
    · rw [Function.update_of_ne hut] at hus
      exact absurd (hone u (hq.queued u hu huc hus)) huc

theorem block_lost (h : QueueInv s created queue) (hq : Queued s created queue) (ht : t ∈ created)
    (htq : t ∉ queue) {u : ℕ} (hu : u ∈ queue) (huc : u ≠ s.currentThread) :
    ¬ NothingLost ⟨threadBlock s t, created⟩ := by
  rintro ⟨queue', hseg, hmem, -⟩
  obtain ⟨hstate, hcur⟩ := threadBlock_same (s := s) (h.ne_zero ht)
  have hnil : queue' = [] := hseg.eq_nil_iff.mpr (block_off h ht htq)
  have hut : u ≠ t := by
    rintro rfl
    exact htq hu
  have hcount := hmem u (h.sub u hu) (by simpa only [hcur] using huc)
    (by simpa only [hstate, Function.update_of_ne hut] using hq.ready u hu)
  rw [hnil] at hcount
  cases hcount

/-- A thread that is created is queued. -/
theorem create_queued (h : QueueInv s created queue) (hq : Queued s created queue)
    (ht : t ∉ created) {proc stackBase : ℕ} {s₁ : System} {p : ℕ}
    (hs : threadCreate s proc t stackBase = (s₁, p)) :
    SchedInv ⟨schedulerAddThread s₁ p, if p = 0 then created else p :: created⟩ := by
  have hstate : ∀ u ∈ created, (threadCreate s proc t stackBase).1.state u = s.state u :=
    fun _ hu => (threadCreate_others ht proc stackBase hu).1
  have hcurrent := threadCreate_currentThread s proc t stackBase
  have hcases := threadCreate_cases h ht proc stackBase
  rw [hs] at hstate hcurrent hcases
  have hq₁ : Queued s₁ created queue := by
    refine ⟨fun u hu => ?_, fun u hu huc hus => ?_⟩
    · rw [hstate u (h.sub u hu)]
      exact hq.ready u hu
    · rw [hcurrent] at huc
      rw [hstate u hu] at hus
      exact hq.queued u hu huc hus
  rcases hcases with ⟨hp, h₁⟩ | ⟨hp, h0, h₁, -, hready⟩
  · simp only at hp
    subst hp
    exact ⟨queue, h₁, hq₁⟩
  · simp only at hp
    subst hp
    have hadd : SameButLinks (schedulerAddThread s₁ p) s₁ := sameButLinks_add
    rw [if_neg h0]
    refine ⟨p :: queue, h₁.add List.mem_cons_self fun hm => ht (h.sub p hm), fun u hu => ?_,
      fun u hu huc hus => ?_⟩
    · rw [hadd.state]
      rcases List.mem_cons.mp hu with rfl | hu
      · exact hready
      · exact hq₁.ready u hu
    · rw [hadd.currentThread] at huc
      rw [hadd.state] at hus
      rcases List.mem_cons.mp hu with rfl | hu
      · exact List.mem_cons_self
      · exact List.mem_cons_of_mem p (hq₁.queued u hu huc hus)

end

/-! ### Runs that lose no thread -/

section
variable {r r' : SchedRun} {a : SchedCall}

/-- What a call on a thread asks of the run, and what it does. -/
theorem schedStep_block {thread : ℕ} (hs : schedStep r (.block thread) = some r') :
    thread ∈ r.created ∧ r' = ⟨threadBlock r.sys thread, r.created⟩ := by
  obtain ⟨ht, hr⟩ := Option.ite_none_right_eq_some.mp hs
  exact ⟨ht, (Option.some.inj hr).symm⟩

theorem schedStep_unblock {thread : ℕ} (hs : schedStep r (.unblock thread) = some r') :
    (thread ∈ r.created ∧ r.sys.state thread = .blocked) ∧
      r' = ⟨threadUnblock r.sys thread, r.created⟩ := by
  obtain ⟨ht, hr⟩ := Option.ite_none_right_eq_some.mp hs
  exact ⟨ht, (Option.some.inj hr).symm⟩

/-- A call that meets its condition keeps the ready threads queued. -/
theorem schedStep_inv (hi : SchedInv r) (hok : SchedCallOk r a) (hs : schedStep r a = some r') :
    SchedInv r' := by
  obtain ⟨s, created⟩ := r
  obtain ⟨queue, h, hq⟩ := hi
  cases a with
  | create proc thread stackBase =>
    obtain ⟨ht, hr⟩ := Option.ite_none_left_eq_some.mp hs
    obtain rfl := Option.some.inj hr
    exact create_queued h hq ht rfl
  | yield =>
    obtain ⟨s', hy, rfl⟩ := Option.map_eq_some_iff.mp hs
    exact yield_queued h hq hok hy
  | sleep =>
    obtain ⟨s', hy, rfl⟩ := Option.map_eq_some_iff.mp hs
    refine sleep_queued h hq ?_ hy
    by_cases h0 : s.currentThread = 0
    · exact .inl h0
    refine .inr fun hm => ?_
    rcases hok with h0' | hl | hr
    · exact h0 h0'
    · exact hl ((h.linked_iff (h.current_mem h0)).mpr (List.mem_of_mem_tail hm))
    · exact h.not_mem_tail hr hm
  | block thread =>
    obtain ⟨ht, rfl⟩ := schedStep_block hs
    by_cases htq : thread ∈ queue
    · exact block_queued h hq htq
    refine ⟨[], block_off_queued h hq ht htq fun u hu => ?_⟩
    rcases hok with hl | hr | ⟨hr, hn⟩
    · exact absurd ((h.linked_iff ht).mp hl) htq
    · rw [h.list.seg.eq_nil_iff.mpr hr] at hu
      cases hu
    · exact h.eq_of_single hr hn hu
  | unblock thread =>
    obtain ⟨⟨ht, hstate⟩, rfl⟩ := schedStep_unblock hs
    exact ⟨_, unblock_queued h hq ht hstate⟩
  | tick =>
    obtain ⟨s', hy, rfl⟩ := Option.map_eq_some_iff.mp hs
    rcases tick_cases h hq hy with ⟨-, h', hq'⟩ | ⟨hc, h0, s₁, hy, h₁, hq₁, hcur⟩
    · exact ⟨queue, h', hq'⟩
    · refine yield_queued h₁ hq₁ ?_ hy
      rcases hok with hok | hok | hok
      · exact absurd hok hc
      · rw [show wsub 64 _ 1 = 0 from h0] at hok
        exact absurd hok (Nat.lt_irrefl 0)
      · rw [h₁.yieldOk_iff, hcur]
        exact h.yieldOk_iff.mp hok
  | schedule =>
    obtain ⟨s', hy, rfl⟩ := Option.map_eq_some_iff.mp hs
    refine schedule_queued h (fun t ht => hq.ready t (List.mem_of_mem_tail ht)) hq.queued ?_ hy
    rcases hok with hok | hok
    · exact (h.yieldOk_iff.mp hok).imp id fun h => h.imp id .inl
    · exact .inr (.inr (.inr hok))

/-- A call that misses its condition loses a thread, or leaves one on the queue that is
not ready. -/
theorem schedStep_lost (hi : SchedInv r) (hok : ¬ SchedCallOk r a)
    (hs : schedStep r a = some r') : ¬ NothingLost r' := by
  obtain ⟨s, created⟩ := r
  obtain ⟨queue, h, hq⟩ := hi
  cases a with
  | create => exact absurd trivial hok
  | yield =>
    obtain ⟨s', hy, rfl⟩ := Option.map_eq_some_iff.mp hs
    exact yield_lost h hq hok hy
  | sleep =>
    obtain ⟨s', hy, rfl⟩ := Option.map_eq_some_iff.mp hs
    simp only [SchedCallOk, not_or, not_not] at hok
    obtain ⟨h0, hl, hr⟩ := hok
    have hm := (h.linked_iff (h.current_mem h0)).mp hl
    exact sleep_lost h h0 (h.mem_tail hm hr) hy
  | block thread =>
    obtain ⟨ht, rfl⟩ := schedStep_block hs
    simp only [SchedCallOk, not_or, not_and] at hok
    obtain ⟨hl, hr, hone⟩ := hok
    have htq : thread ∉ queue := fun hm => hl ((h.linked_iff ht).mpr hm)
    obtain ⟨u, hu, huc⟩ := h.exists_other hr hone
    exact block_lost h hq ht htq hu huc
  | unblock => exact absurd trivial hok
  | tick =>
    obtain ⟨s', hy, rfl⟩ := Option.map_eq_some_iff.mp hs
    simp only [SchedCallOk, not_or] at hok
    obtain ⟨hc, hslice, hyield⟩ := hok
    rcases tick_cases h hq hy with ⟨hc' | hslice', -⟩ | ⟨-, -, s₁, hy, h₁, hq₁, hcur⟩
    · exact absurd hc' hc
    · exact absurd hslice' hslice
    · refine yield_lost h₁ hq₁ ?_ hy
      rw [h₁.yieldOk_iff, hcur]
      exact fun hok => hyield (h.yieldOk_iff.mpr hok)
  | schedule =>
    obtain ⟨s', hy, rfl⟩ := Option.map_eq_some_iff.mp hs
    simp only [SchedCallOk, not_or, not_not] at hok
    obtain ⟨hyield, hready⟩ := hok
    rw [h.yieldOk_iff, not_or, not_or] at hyield
    obtain ⟨hne, h0, hm⟩ := hyield
    cases queue with
    | nil => exact absurd rfl hne
    | cons t rest =>
      rw [List.mem_cons, not_or] at hm
      exact schedule_lost h h0 hm.1 (.inl ⟨hready, hm.2⟩) hy

end

theorem schedulerInit_inv (s : System) : SchedInv ⟨schedulerInit s, []⟩ :=
  ⟨[], ⟨IsDList.nil, nofun, nofun, nofun, .inl rfl⟩, nofun, nofun⟩

/-- **No thread is lost** in a run exactly if each of its calls meets its condition. -/
theorem no_thread_lost (s : System) (calls : List SchedCall) :
    Always schedStep NothingLost ⟨schedulerInit s, []⟩ calls ↔
      Each schedStep SchedCallOk ⟨schedulerInit s, []⟩ calls :=
  always_iff_each (fun _ => SchedInv.nothingLost) (fun _ _ _ hi h hs => schedStep_inv hi h hs)
    (fun _ _ _ hi h hs => schedStep_lost hi h hs) (schedulerInit_inv s)

/-- Two threads are created, the second gets the CPU, and is blocked: the first is ready,
and the queue is empty. -/
theorem ready_thread_lost :
    ¬ ∀ s calls, Always schedStep NothingLost ⟨schedulerInit s, []⟩ calls := by
  intro h
  have hall := h default [.create 1 1 1, .create 1 2 1, .schedule, .block 2]
  have hend : (run schedStep ⟨schedulerInit default, []⟩
      [.create 1 1 1, .create 1 2 1, .schedule, .block 2]).map
        (fun r => (r.created, r.sys.readyQueue, r.sys.currentThread, r.sys.state 1)) =
      some ([2, 1], 0, 2, .ready) := by decide +kernel
  obtain ⟨r, hr, hvals⟩ := Option.map_eq_some_iff.mp hend
  obtain ⟨hcreated, hvals⟩ := Prod.ext_iff.mp hvals
  obtain ⟨hqueue, hvals⟩ := Prod.ext_iff.mp hvals
  obtain ⟨hcur, hstate⟩ := Prod.ext_iff.mp hvals
  simp only at hcreated hqueue hcur hstate
  obtain ⟨queue, hseg, hcount, -⟩ := hall.of_run hr
  have hnil : queue = [] := hseg.eq_nil_iff.mpr hqueue
  have hone := hcount 1 (by rw [hcreated]; decide) (by rw [hcur]; decide) hstate
  rw [hnil] at hone
  cases hone

end PrismaticOS.Kernel
