import PrismaticOS.Kernel.ReadyQueue

/-!
# Removing a thread that is not on the ready queue

`scheduler_remove_thread` does not look whether the thread is on `ready_queue`: it
joins what the thread's own links name. The thread that has the CPU is not on the
queue, and `thread_block`, `mutex_lock` and `thread_exit` remove it all the same.

## What is proved

* `seg_remove_iff` — when the queue is the same after the removal.
* `keepsQueue_iff` — so for the two calls, for every queue and every thread off it.
* `QueueInv.harmless_iff` — where such threads have empty links, only the empty queue
  is kept.
-/

namespace PrismaticOS.Kernel

open PrismaticOS.Library

variable {s : System} {t : ℕ} {created queue : List ℕ}

/-- The threads on the queue are `queue`, in this order. -/
def OnQueue (s : System) (queue : List ℕ) : Prop := Seg s.next s.readyQueue queue 0

/-- **The frame law**: neither call changes the sequence of threads on the queue. -/
def KeepsQueue (s : System) (t : ℕ) (queue : List ℕ) : Prop :=
  OnQueue (schedulerRemoveThread s t) queue ∧ OnQueue (threadBlock s t) queue

/-- The links of `t` name nothing that the removal would join wrongly: without a
predecessor its successor is the head of the queue, and a predecessor that is on the
queue has the same successor as `t`. -/
def Harmless (s : System) (t : ℕ) (queue : List ℕ) : Prop :=
  t = 0 ∨ if s.prev t = 0 then s.next t = s.readyQueue
    else s.prev t ∈ queue → s.next (s.prev t) = s.next t

/-- What is on the queue depends on the head and the links of the queue. -/
theorem OnQueue.congr {s' : System} (hr : s'.readyQueue = s.readyQueue)
    (hn : ∀ u ∈ queue, s'.next u = s.next u) : OnQueue s queue → OnQueue s' queue := by
  intro h
  unfold OnQueue
  rw [hr]
  exact Seg.congr h hn

/-- **The queue after the removal**, link by link. -/
theorem seg_remove_iff (h : OnQueue s queue) (ht : t ∉ queue) :
    OnQueue (schedulerRemoveThread s t) queue ↔ Harmless s t queue := by
  by_cases h0 : t = 0
  · have hsame : schedulerRemoveThread s t = s := by
      rw [schedulerRemoveThread, if_pos h0]
    rw [hsame]
    exact ⟨fun _ => .inl h0, fun _ => h⟩
  obtain ⟨hr, hn, -⟩ := schedulerRemoveThread_links (s := s) h0
  have hne : ∀ u ∈ queue, u ≠ t := by
    rintro u hu rfl
    exact ht hu
  -- the cleared links of `t` are not on the queue
  have hclear : ∀ head, Seg (Function.update (IsDList.unlinkNext s.next s.prev t) t 0) head queue 0 ↔
      Seg (IsDList.unlinkNext s.next s.prev t) head queue 0 := by
    intro head
    constructor
    · intro hs
      exact hs.congr fun u hu => (Function.update_of_ne (hne u hu) ..).symm
    · intro hs
      exact hs.congr fun u hu => Function.update_of_ne (hne u hu) ..
  rw [OnQueue, hr, hn, hclear, Harmless, or_iff_right h0]
  by_cases hp : s.prev t = 0
  · simp only [IsDList.unlinkHead, IsDList.unlinkNext, hp, ne_eq, not_true_eq_false, if_false, if_true]
    exact Seg.head_iff h
  · simp only [IsDList.unlinkHead, IsDList.unlinkNext, hp, ne_eq, not_false_eq_true, if_true, if_false]
    by_cases hmem : s.prev t ∈ queue
    · rw [Seg.update_iff h hmem]
      exact ⟨fun he _ => he.symm, fun he => (he hmem).symm⟩
    · refine ⟨fun _ he => absurd he hmem, fun _ => Seg.congr h fun u hu => ?_⟩
      rw [Function.update_of_ne]
      rintro rfl
      exact hmem hu

/-- Marking the thread as blocked changes no link. -/
theorem harmless_blocked_iff : Harmless (s.setThread t fun x => { x with state := .blocked }) t queue ↔
    Harmless s t queue := by
  rw [Harmless, Harmless, System.setThread_next_of, System.setThread_prev_of,
    System.setThread_readyQueue]
  · exact fun _ => rfl
  · exact fun _ => rfl

/-- **What a call on a thread off the queue does to it**: the queue stays exactly when the
links of the thread are harmless. -/
theorem keepsQueue_iff (h : IsDList s.next s.prev s.readyQueue queue) (ht : t ∉ queue) :
    KeepsQueue s t queue ↔ Harmless s t queue := by
  have hremove := seg_remove_iff h.seg ht
  have hblock : OnQueue (threadBlock s t) queue ↔ Harmless s t queue := by
    rw [threadBlock]
    by_cases h0 : t = 0
    · rw [if_pos h0]
      exact ⟨fun _ => .inl h0, fun _ => h.seg⟩
    rw [if_neg h0, ← harmless_blocked_iff]
    refine seg_remove_iff (OnQueue.congr (System.setThread_readyQueue ..) (fun u _ => ?_) h.seg) ht
    rw [System.setThread_next_of]
    exact fun _ => rfl
  rw [KeepsQueue, hremove, hblock, and_self]

/-- A single thread on the queue, and another one whose successor it is and that has no
predecessor: blocking that one changes nothing. -/
theorem keepsQueue_dangling : ∃ s queue, queue ≠ [] ∧ KeepsQueue s 2 queue := by
  refine ⟨(schedulerAddThread default 1).setThread 2 fun x => { x with next := 1 }, [1], by simp, ?_⟩
  refine (keepsQueue_iff ⟨?_, ?_⟩ (by decide)).mpr ?_
  · exact ⟨rfl, Nat.one_ne_zero, rfl⟩
  · exact ⟨rfl, trivial⟩
  · exact .inr (by decide)

/-- The running thread is blocked while another is ready: the queue is empty after it. -/
theorem running_empties_queue : ¬ ∀ s t queue, IsDList s.next s.prev s.readyQueue queue → t ∉ queue →
    KeepsQueue s t queue := by
  intro h
  have hkeep := h (schedulerAddThread { (default : System) with currentThread := 2 } 1) 2 [1]
    ⟨⟨rfl, Nat.one_ne_zero, rfl⟩, rfl, trivial⟩ (by decide)
  exact absurd hkeep.1.1 (by decide)

/-- Where a thread off the queue has empty links, as every created thread has, only the
empty queue is kept. -/
theorem QueueInv.harmless_iff (h : QueueInv s created queue) (ht : t ∈ created) (htq : t ∉ queue) :
    Harmless s t queue ↔ queue = [] := by
  obtain ⟨hn, hp⟩ := h.unlinked t ht htq
  rw [Harmless, or_iff_right (h.ne_zero ht), if_pos hp, hn, h.list.seg.eq_nil_iff, eq_comm]

end PrismaticOS.Kernel
