import PrismaticOS.Kernel.Tasks

/-!
# The ready queue as a list

What the edits of `ready_queue` do to the threads that are on it.

## What is proved

* `QueueInv` — the queue is a well-formed doubly linked list of created threads, and
  a thread that is not on it has empty links.
* `QueueInv.add`, `QueueInv.remove`, `QueueInv.setThread` — the calls of
  `process.c` keep it so.
* `schedulerSchedule_cases` — a call of the scheduler halts, or hands the CPU to the
  head of the queue.
-/

namespace PrismaticOS.Kernel

open PrismaticOS.Library

variable {s s' : System} {t u : ℕ} {created queue l r : List ℕ}

namespace System

variable (s t) (f : Thread → Thread)

theorem setThread_next : (s.setThread t f).next = Function.update s.next t (f (s.threads t)).next :=
  Function.comp_update Thread.next s.threads t _

theorem setThread_prev : (s.setThread t f).prev = Function.update s.prev t (f (s.threads t)).prev :=
  Function.comp_update Thread.prev s.threads t _

theorem setThread_state :
    (s.setThread t f).state = Function.update s.state t (f (s.threads t)).state :=
  Function.comp_update Thread.state s.threads t _

theorem setThread_tid : (s.setThread t f).tid = Function.update s.tid t (f (s.threads t)).tid :=
  Function.comp_update Thread.tid s.threads t _

theorem setState_state (st : ThreadState) :
    (s.setThread t fun x => { x with state := st }).state = Function.update s.state t st :=
  s.setThread_state t _

variable {f}

/-- A field that is not assigned stays. -/
theorem setThread_next_of (hf : ∀ x, (f x).next = x.next) : (s.setThread t f).next = s.next := by
  rw [setThread_next, hf]
  exact Function.update_eq_self t s.next

theorem setThread_prev_of (hf : ∀ x, (f x).prev = x.prev) : (s.setThread t f).prev = s.prev := by
  rw [setThread_prev, hf]
  exact Function.update_eq_self t s.prev

theorem setThread_state_of (hf : ∀ x, (f x).state = x.state) :
    (s.setThread t f).state = s.state := by
  rw [setThread_state, hf]
  exact Function.update_eq_self t s.state

theorem setThread_tid_of (hf : ∀ x, (f x).tid = x.tid) : (s.setThread t f).tid = s.tid := by
  rw [setThread_tid, hf]
  exact Function.update_eq_self t s.tid

variable (f)

@[simp] theorem setThread_readyQueue : (s.setThread t f).readyQueue = s.readyQueue := rfl

@[simp] theorem setThread_currentThread : (s.setThread t f).currentThread = s.currentThread := rfl

theorem setReadyQueue_next : (s.setReadyQueue t).next = s.next := rfl

theorem setReadyQueue_prev : (s.setReadyQueue t).prev = s.prev := rfl

@[simp] theorem setThread_nextTid : (s.setThread t f).nextTid = s.nextTid := rfl

end System

/-! ### What the two edits of the queue leave alone -/

/-- Everything but the links of the threads and the head of the queue is the same. -/
structure SameButLinks (s' s : System) : Prop where
  /-- The states. -/
  state : s'.state = s.state
  /-- The numbers. -/
  tid : s'.tid = s.tid
  /-- The thread that has the CPU. -/
  currentThread : s'.currentThread = s.currentThread
  /-- The next number. -/
  nextTid : s'.nextTid = s.nextTid

theorem SameButLinks.trans {s₁ s₂ s₃ : System} (h : SameButLinks s₁ s₂) (h' : SameButLinks s₂ s₃) :
    SameButLinks s₁ s₃ :=
  ⟨h.state.trans h'.state, h.tid.trans h'.tid, h.currentThread.trans h'.currentThread,
    h.nextTid.trans h'.nextTid⟩

/-- Assigning links. -/
theorem sameButLinks_setThread {f : Thread → Thread} (hs : ∀ x, (f x).state = x.state)
    (ht : ∀ x, (f x).tid = x.tid) : SameButLinks (s.setThread t f) s :=
  ⟨s.setThread_state_of t hs, s.setThread_tid_of t ht, rfl, rfl⟩

theorem sameButLinks_setReadyQueue : SameButLinks (s.setReadyQueue t) s := ⟨rfl, rfl, rfl, rfl⟩

theorem SameButLinks.ite {c : Prop} [Decidable c] {s₁ s₂ : System} (h₁ : SameButLinks s₁ s)
    (h₂ : SameButLinks s₂ s) : SameButLinks (if c then s₁ else s₂) s := by
  split
  · exact h₁
  · exact h₂

theorem sameButLinks_add : SameButLinks (schedulerAddThread s t) s := by
  have hrefl : SameButLinks s s := ⟨rfl, rfl, rfl, rfl⟩
  unfold schedulerAddThread
  refine hrefl.ite (sameButLinks_setReadyQueue.trans ?_)
  refine SameButLinks.trans (.ite (sameButLinks_setThread ?_ ?_) ⟨rfl, rfl, rfl, rfl⟩)
    (sameButLinks_setThread ?_ ?_)
  all_goals exact fun _ => rfl

theorem sameButLinks_remove : SameButLinks (schedulerRemoveThread s t) s := by
  have hrefl : SameButLinks s s := ⟨rfl, rfl, rfl, rfl⟩
  unfold schedulerRemoveThread
  refine hrefl.ite (SameButLinks.trans (sameButLinks_setThread ?_ ?_) (SameButLinks.trans
    (.ite (sameButLinks_setThread ?_ ?_) ⟨rfl, rfl, rfl, rfl⟩)
    (.ite (sameButLinks_setThread ?_ ?_) sameButLinks_setReadyQueue)))
  all_goals exact fun _ => rfl

/-! ### The links after an edit -/

theorem schedulerAddThread_links (h0 : t ≠ 0) (ht : t ≠ s.readyQueue) :
    (schedulerAddThread s t).readyQueue = t ∧
      (schedulerAddThread s t).next = Function.update s.next t s.readyQueue ∧
      (schedulerAddThread s t).prev = fun u =>
        if u = t then 0 else if s.readyQueue ≠ 0 ∧ u = s.readyQueue then t else s.prev u := by
  unfold schedulerAddThread
  rw [if_neg h0]
  by_cases hq : s.readyQueue ≠ 0
  · simp only [if_pos hq]
    refine ⟨rfl, ?_, ?_⟩
    · rw [System.setReadyQueue_next, System.setThread_next_of, System.setThread_next]
      exact fun _ => rfl
    · rw [System.setReadyQueue_prev, System.setThread_prev, System.setThread_prev]
      funext u
      by_cases hu : u = s.readyQueue
      · rw [hu, Function.update_self, if_neg (Ne.symm ht), if_pos ⟨hq, rfl⟩]
      · rw [Function.update_of_ne hu]
        by_cases hut : u = t
        · rw [hut, Function.update_self, if_pos rfl]
        · rw [Function.update_of_ne hut, if_neg hut, if_neg fun h => hu h.2]
  · simp only [if_neg hq]
    refine ⟨rfl, ?_, ?_⟩
    · rw [System.setReadyQueue_next, System.setThread_next]
    · rw [System.setReadyQueue_prev, System.setThread_prev]
      funext u
      by_cases hut : u = t
      · rw [hut, Function.update_self, if_pos rfl]
      · rw [Function.update_of_ne hut, if_neg hut, if_neg fun h => hq h.1]

theorem schedulerRemoveThread_links (h0 : t ≠ 0) :
    (schedulerRemoveThread s t).readyQueue = IsDList.unlinkHead s.next s.prev s.readyQueue t ∧
      (schedulerRemoveThread s t).next =
        Function.update (IsDList.unlinkNext s.next s.prev t) t 0 ∧
      (schedulerRemoveThread s t).prev =
        Function.update (IsDList.unlinkPrev s.next s.prev t) t 0 := by
  unfold schedulerRemoveThread IsDList.unlinkHead IsDList.unlinkNext IsDList.unlinkPrev
  rw [if_neg h0]
  -- the state between the two joins: the predecessor points past `t`
  obtain ⟨u, hu⟩ : ∃ u, (if s.prev t ≠ 0 then
      s.setThread (s.prev t) fun x => { x with next := s.next t } else
      s.setReadyQueue (s.next t)) = u := ⟨_, rfl⟩
  have hhead : u.readyQueue = if s.prev t ≠ 0 then s.readyQueue else s.next t := by
    rw [← hu]
    split <;> rfl
  have hnext : u.next = if s.prev t ≠ 0 then Function.update s.next (s.prev t) (s.next t)
      else s.next := by
    rw [← hu]
    split
    · exact System.setThread_next _ _ _
    · rfl
  have hprev : u.prev = s.prev := by
    rw [← hu]
    split
    · exact System.setThread_prev_of _ _ fun _ => rfl
    · rfl
  have hnt : u.next t = s.next t := by
    rw [hnext]
    split
    · rw [Function.update_apply]
      split_ifs <;> rfl
    · rfl
  simp only [hu, hnt, hprev]
  by_cases hn : s.next t ≠ 0
  · simp only [if_pos hn]
    refine ⟨hhead, ?_, ?_⟩
    · rw [System.setThread_next, System.setThread_next_of, hnext]
      exact fun _ => rfl
    · rw [System.setThread_prev, System.setThread_prev, hprev]
  · simp only [if_neg hn]
    exact ⟨hhead, by rw [System.setThread_next, hnext], by rw [System.setThread_prev, hprev]⟩

/-- Taking out a thread with empty links makes the queue empty. -/
theorem schedulerRemoveThread_off (h0 : t ≠ 0) (hn : s.next t = 0) (hp : s.prev t = 0) :
    (schedulerRemoveThread s t).readyQueue = 0 ∧ (schedulerRemoveThread s t).next = s.next ∧
      (schedulerRemoveThread s t).prev = s.prev := by
  obtain ⟨hr, hn', hp'⟩ := schedulerRemoveThread_links h0
  rw [hr, hn', hp']
  simp only [IsDList.unlinkHead, IsDList.unlinkNext, IsDList.unlinkPrev, hn, hp, ne_eq,
    not_true_eq_false, if_false, true_and]
  constructor
  · rw [← hn, Function.update_eq_self]
  · rw [← hp, Function.update_eq_self]

/-! ### The invariant -/

/-- The queue is a well-formed list of the threads `queue`. -/
structure QueueInv (s : System) (created queue : List ℕ) : Prop where
  /-- The links. -/
  list : IsDList s.next s.prev s.readyQueue queue
  /-- The threads on the queue were created. -/
  sub : ∀ t ∈ queue, t ∈ created
  /-- A thread that is not on the queue has empty links. -/
  unlinked : ∀ t ∈ created, t ∉ queue → s.next t = 0 ∧ s.prev t = 0
  /-- No thread is `NULL`. -/
  nonzero : 0 ∉ created
  /-- The thread that has the CPU was created, if there is one. -/
  current : s.currentThread = 0 ∨ s.currentThread ∈ created

/-- The links say that the thread is on the queue. -/
def Linked (s : System) (t : ℕ) : Prop := s.prev t ≠ 0 ∨ s.readyQueue = t

instance (s : System) (t : ℕ) : Decidable (Linked s t) := inferInstanceAs (Decidable (_ ∨ _))

namespace QueueInv

theorem ne_zero (h : QueueInv s created queue) (ht : t ∈ created) : t ≠ 0 := by
  rintro rfl
  exact h.nonzero ht

theorem linked_iff (h : QueueInv s created queue) (ht : t ∈ created) : Linked s t ↔ t ∈ queue := by
  constructor
  · rintro (hp | hr)
    · by_contra hq
      exact hp (h.unlinked t ht hq).2
    · rw [← hr]
      exact h.list.seg.head_mem (hr ▸ h.ne_zero ht)
  · intro hq
    by_cases hp : s.prev t = 0
    · exact .inr ((h.list.prev_eq_zero_iff hq).mp hp).symm
    · exact .inl hp

/-- The invariant is about the links, the head and the current thread. -/
theorem congr (h : QueueInv s created queue) (hn : s'.next = s.next) (hp : s'.prev = s.prev)
    (hr : s'.readyQueue = s.readyQueue)
    (hc : s'.currentThread = 0 ∨ s'.currentThread ∈ created) : QueueInv s' created queue := by
  refine ⟨?_, h.sub, ?_, h.nonzero, hc⟩
  · rw [hn, hp, hr]
    exact h.list
  · rw [hn, hp]
    exact h.unlinked

/-- Assigning another field of a thread. -/
theorem setThread {f : Thread → Thread} (h : QueueInv s created queue)
    (hn : ∀ x, (f x).next = x.next) (hp : ∀ x, (f x).prev = x.prev) :
    QueueInv (s.setThread t f) created queue :=
  h.congr (s.setThread_next_of t hn) (s.setThread_prev_of t hp) rfl h.current

/-- Assigning the state of a thread. -/
theorem setState (h : QueueInv s created queue) (st : ThreadState) :
    QueueInv (s.setThread t fun x => { x with state := st }) created queue :=
  h.setThread (fun _ => rfl) fun _ => rfl

/-- Writing memory that no thread has. -/
theorem fresh (h : QueueInv s created queue) (ht : t ∉ created) (f : Thread → Thread) :
    QueueInv (s.setThread t f) created queue := by
  have hne : ∀ u ∈ created, u ≠ t := by
    rintro u hu rfl
    exact ht hu
  refine ⟨?_, h.sub, fun u hu huq => ?_, h.nonzero, h.current⟩
  · rw [System.setThread_next, System.setThread_prev]
    exact h.list.congr (fun u hu => Function.update_of_ne (hne u (h.sub u hu)) ..)
      fun u hu => Function.update_of_ne (hne u (h.sub u hu)) ..
  · rw [System.setThread_next, System.setThread_prev, Function.update_of_ne (hne u hu),
      Function.update_of_ne (hne u hu)]
    exact h.unlinked u hu huq

/-- A new thread has empty links. -/
theorem create (h : QueueInv s created queue) (ht : t ≠ 0) (hn : s.next t = 0) (hp : s.prev t = 0) :
    QueueInv s (t :: created) queue := by
  refine ⟨h.list, fun u hu => List.mem_cons_of_mem t (h.sub u hu), fun u hu huq => ?_, ?_,
    h.current.imp id (List.mem_cons_of_mem t)⟩
  · rcases List.mem_cons.mp hu with rfl | hu
    · exact ⟨hn, hp⟩
    · exact h.unlinked u hu huq
  · rw [List.mem_cons, not_or]
    exact ⟨ht.symm, h.nonzero⟩

/-- **A thread is put on the queue.** -/
theorem add (h : QueueInv s created queue) (ht : t ∈ created) (htq : t ∉ queue) :
    QueueInv (schedulerAddThread s t) created (t :: queue) := by
  have h0 := h.ne_zero ht
  have hhead : t ≠ s.readyQueue := by
    rintro rfl
    exact htq (h.list.seg.head_mem h0)
  have hne : ∀ u ∈ queue, u ≠ t := by
    rintro u hu rfl
    exact htq hu
  obtain ⟨hr, hn, hp⟩ := schedulerAddThread_links h0 hhead
  refine ⟨?_, ?_, ?_, h.nonzero, ?_⟩
  · rw [hr, hn, hp]
    refine h.list.push htq h0 (Function.update_self ..)
      (fun u hu => Function.update_of_ne (hne u hu) ..) (if_pos rfl) fun u hu => ?_
    have hq0 : s.readyQueue ≠ 0 := by
      rw [Ne, ← h.list.seg.eq_nil_iff]
      rintro rfl
      cases hu
    simp only [hne u hu, if_false, hq0, ne_eq, not_false_eq_true, true_and]
  · intro u hu
    rcases List.mem_cons.mp hu with rfl | hu
    · exact ht
    · exact h.sub u hu
  · intro u hu huq
    have hut : u ≠ t := fun he => huq (he ▸ List.mem_cons_self)
    have huq' : u ∉ queue := fun hq => huq (List.mem_cons_of_mem t hq)
    rw [hn, hp, Function.update_of_ne hut]
    refine ⟨(h.unlinked u hu huq').1, ?_⟩
    simp only [if_neg hut]
    rw [if_neg]
    · exact (h.unlinked u hu huq').2
    · rintro ⟨hq0, rfl⟩
      exact huq' (h.list.seg.head_mem hq0)
  · rw [sameButLinks_add.currentThread]
    exact h.current

/-- **A thread is taken off the queue.** -/
theorem remove (h : QueueInv s created (l ++ t :: r)) :
    QueueInv (schedulerRemoveThread s t) created (l ++ r) := by
  have htq : t ∈ l ++ t :: r := by simp
  have hnd := h.list.nodup
  have htlr : t ∉ l ++ r := by
    rw [List.nodup_append, List.nodup_cons] at hnd
    rw [List.mem_append]
    rintro (hl | hr)
    · exact hnd.2.2 t hl t List.mem_cons_self rfl
    · exact hnd.2.1.1 hr
  have hsub : ∀ u ∈ l ++ r, u ∈ l ++ t :: r := by
    intro u hu
    rw [List.mem_append, List.mem_cons]
    exact (List.mem_append.mp hu).imp id .inr
  obtain ⟨hr, hn, hp⟩ := schedulerRemoveThread_links (h.list.seg.ne_zero htq)
  refine ⟨?_, fun u hu => h.sub u (hsub u hu), ?_, h.nonzero, ?_⟩
  · rw [hr, hn, hp]
    have hne : ∀ u ∈ l ++ r, u ≠ t := by
      rintro u hu rfl
      exact htlr hu
    exact h.list.unlink.congr (fun u hu => Function.update_of_ne (hne u hu) ..)
      fun u hu => Function.update_of_ne (hne u hu) ..
  · intro u hu huq
    rw [hn, hp]
    by_cases hut : u = t
    · rw [hut, Function.update_self, Function.update_self]
      exact ⟨rfl, rfl⟩
    · have huq' : u ∉ l ++ t :: r := by
        rw [List.mem_append, List.mem_cons]
        rintro (hl | rfl | hr)
        · exact huq (List.mem_append_left r hl)
        · exact hut rfl
        · exact huq (List.mem_append_right l hr)
      obtain ⟨hn', hp'⟩ := h.list.unlink_frame htq huq'
      rw [Function.update_of_ne hut, Function.update_of_ne hut, hn', hp']
      exact h.unlinked u hu huq'
  · rw [sameButLinks_remove.currentThread]
    exact h.current

/-- A thread that is not on the queue is taken off it: what was on the queue is lost,
and only a single thread is left with empty links. -/
theorem remove_off (h : QueueInv s created queue) (ht : t ∈ created) (htq : t ∉ queue)
    (hq : ∀ u ∈ queue, s.next u = 0 ∧ s.prev u = 0) :
    QueueInv (schedulerRemoveThread s t) created [] := by
  obtain ⟨hn, hp⟩ := h.unlinked t ht htq
  obtain ⟨hr', hn', hp'⟩ := schedulerRemoveThread_off (h.ne_zero ht) hn hp
  refine ⟨?_, nofun, ?_, h.nonzero, ?_⟩
  · rw [hr']
    exact IsDList.nil
  · intro u hu _
    rw [hn', hp']
    by_cases huq : u ∈ queue
    · exact hq u huq
    · exact h.unlinked u hu huq
  · rw [sameButLinks_remove.currentThread]
    exact h.current

end QueueInv

/-- **The scheduler** halts, or hands the CPU to the head of the queue. -/
theorem schedulerSchedule_cases (h : QueueInv s created queue) (hs : schedulerSchedule s = some s') :
    (queue = [] ∧ s' = s) ∨
      ∃ t rest, queue = t :: rest ∧ QueueInv s' created rest ∧ s'.currentThread = t ∧
        s'.state = Function.update s.state t .running ∧ s'.tid = s.tid ∧ s'.nextTid = s.nextTid := by
  unfold schedulerSchedule at hs
  by_cases h0 : s.readyQueue = 0
  · simp only [if_pos h0, Option.some.injEq] at hs
    exact .inl ⟨(h.list.seg.eq_nil_iff).mpr h0, hs.symm⟩
  · simp only [if_neg h0] at hs
    obtain ⟨proc, -, rfl⟩ := Option.map_eq_some_iff.mp hs
    cases queue with
    | nil => exact absurd h.list.seg h0
    | cons t rest =>
      have hhead : s.readyQueue = t := h.list.seg.1
      rw [hhead]
      have hsame := sameButLinks_remove (s := s) (t := t)
      refine .inr ⟨t, rest, rfl, ?_, rfl, ?_, ?_, hsame.nextTid⟩
      · refine QueueInv.setThread ?_ (fun _ => rfl) fun _ => rfl
        exact (QueueInv.remove (l := []) h).congr rfl rfl rfl (.inr (h.sub t List.mem_cons_self))
      · rw [System.setThread_state]
        exact congrArg (fun g => Function.update g t _) hsame.state
      · rw [System.setThread_tid_of]
        · exact hsame.tid
        · exact fun _ => rfl

/-- **A thread is created**, or not, and no other thread changes. -/
theorem threadCreate_cases (h : QueueInv s created queue) (ht : t ∉ created) (proc stackBase : ℕ) :
    ((threadCreate s proc t stackBase).2 = 0 ∧
        QueueInv (threadCreate s proc t stackBase).1 created queue) ∨
      ((threadCreate s proc t stackBase).2 = t ∧ t ≠ 0 ∧
        QueueInv (threadCreate s proc t stackBase).1 (t :: created) queue ∧
          (threadCreate s proc t stackBase).1.tid t = s.nextTid ∧
            (threadCreate s proc t stackBase).1.state t = .ready) := by
  unfold threadCreate
  by_cases hproc : proc = 0
  · rw [if_pos hproc]
    exact .inl ⟨rfl, h⟩
  by_cases h0 : t = 0
  · rw [if_neg hproc, if_pos h0]
    exact .inl ⟨rfl, h⟩
  rw [if_neg hproc, if_neg h0]
  obtain ⟨f, hf⟩ : ∃ f : Thread → Thread, (fun _ => ⟨s.nextTid, (s.procs proc).pid, .ready, 10, 0, 0⟩) =
    f := ⟨_, rfl⟩
  have hfresh := h.fresh ht f
  simp only [hf]
  by_cases hstack : stackBase = 0
  · rw [if_pos hstack]
    exact .inl ⟨rfl, hfresh.congr rfl rfl rfl hfresh.current⟩
  · rw [if_neg hstack]
    refine .inr ⟨rfl, h0, ?_, ?_, ?_⟩
    · refine QueueInv.congr (s := s.setThread t f) (hfresh.create h0 ?_ ?_) rfl rfl rfl
        (hfresh.current.imp id (List.mem_cons_of_mem t))
      · rw [System.setThread_next, Function.update_self, ← hf]
      · rw [System.setThread_prev, Function.update_self, ← hf]
    · rw [System.setThread_tid, Function.update_self, ← hf]
    · rw [System.setThread_state, Function.update_self, ← hf]

/-- What the creation of a thread leaves alone. -/
theorem threadCreate_frame (s : System) (hu : u ≠ t) (proc stackBase : ℕ) :
    (threadCreate s proc t stackBase).1.state u = s.state u ∧
      (threadCreate s proc t stackBase).1.tid u = s.tid u ∧
        (threadCreate s proc t stackBase).1.currentThread = s.currentThread := by
  unfold threadCreate
  by_cases hproc : proc = 0
  · rw [if_pos hproc]
    exact ⟨rfl, rfl, rfl⟩
  by_cases h0 : t = 0
  · rw [if_neg hproc, if_pos h0]
    exact ⟨rfl, rfl, rfl⟩
  rw [if_neg hproc, if_neg h0]
  obtain ⟨f, hf⟩ : ∃ f : Thread → Thread, (fun _ => ⟨s.nextTid, (s.procs proc).pid, .ready, 10, 0, 0⟩) =
    f := ⟨_, rfl⟩
  have hstate : (s.setThread t f).state u = s.state u := by
    rw [System.setThread_state, Function.update_of_ne hu]
  have htid : (s.setThread t f).tid u = s.tid u := by
    rw [System.setThread_tid, Function.update_of_ne hu]
  simp only [hf]
  split
  · exact ⟨hstate, htid, rfl⟩
  · exact ⟨hstate, htid, rfl⟩

/-- A new thread leaves the ones that were created alone. -/
theorem threadCreate_others (ht : t ∉ created) (proc stackBase : ℕ) (hu : u ∈ created) :
    (threadCreate s proc t stackBase).1.state u = s.state u ∧
      (threadCreate s proc t stackBase).1.tid u = s.tid u := by
  have hut : u ≠ t := by
    rintro rfl
    exact ht hu
  obtain ⟨hstate, htid, -⟩ := threadCreate_frame s hut proc stackBase
  exact ⟨hstate, htid⟩

theorem threadCreate_currentThread (s : System) (proc t stackBase : ℕ) :
    (threadCreate s proc t stackBase).1.currentThread = s.currentThread :=
  (threadCreate_frame s (Nat.succ_ne_self t) proc stackBase).2.2

/-! ### Blocking -/

theorem threadBlock_same (ht : t ≠ 0) :
    (threadBlock s t).state = Function.update s.state t .blocked ∧
      (threadBlock s t).currentThread = s.currentThread := by
  have hsame := sameButLinks_remove (s := s.setThread t fun x => { x with state := .blocked }) (t := t)
  unfold threadBlock
  rw [if_neg ht, hsame.state, hsame.currentThread, System.setState_state]
  exact ⟨rfl, rfl⟩

/-- Blocking a thread that is not on the queue loses what is on it. -/
theorem block_off (h : QueueInv s created queue) (ht : t ∈ created) (htq : t ∉ queue) :
    (threadBlock s t).readyQueue = 0 := by
  obtain ⟨hn, hp⟩ := h.unlinked t ht htq
  have h₁ : QueueInv (s.setThread t fun x => { x with state := .blocked }) created queue :=
    h.setState .blocked
  obtain ⟨hn₁, hp₁⟩ := h₁.unlinked t ht htq
  unfold threadBlock
  rw [if_neg (h.ne_zero ht)]
  exact (schedulerRemoveThread_off (h.ne_zero ht) hn₁ hp₁).1

end PrismaticOS.Kernel
