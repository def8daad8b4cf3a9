import PrismaticOS.Library.LinkedList
import PrismaticOS.Library.Words

/-!
# Threads and the scheduler

The threads of `kernel/process.c`: their creation, the ready queue, and the calls
that hand the CPU on. A thread waits on `ready_queue` through the fields `next` and
`prev` of its own `thread_t`; the thread that has the CPU is `current_thread`.

## The model

A thread or a process is a pointer, `0` is `NULL`, and `System` has what each pointer
points at beside the static variables of the file. The context of a thread (its
stack, its registers) is not here: `context_switch` hands the CPU to the thread that
is now `current_thread`, and what that thread calls next is the next step of a run.

`processFindByPid` walks `process_list` with as many steps as there are addresses; a
walk that takes more never ends, and then the call does not return (`none`).
`mm_switch_space` is declared and called, but not defined in the repository; it works
on page tables only and is left out.
-/

namespace PrismaticOS.Kernel

open PrismaticOS.Library

/-! ### Processes and threads -/

/-- The state of a process. -/
inductive ProcState where
  /-- `PROC_STATE_RUNNING`. -/
  | running
  /-- `PROC_STATE_SLEEPING`. -/
  | sleeping
  /-- `PROC_STATE_TERMINATED`. -/
  | terminated
  /-- `PROC_STATE_ZOMBIE`. -/
  | zombie
  deriving DecidableEq, Inhabited

/-- A `process_t`. -/
structure Process where
  /-- Its number. -/
  pid : ℕ
  /-- The number of its parent. -/
  ppid : ℕ
  /-- What it is doing. -/
  state : ProcState
  /-- What it exited with. -/
  exitCode : ℤ
  /-- The signals sent and not handled, one bit each. -/
  pendingSignals : BitVec 32
  /-- The handler of each signal. -/
  signalHandlers : ℕ → ℕ
  /-- Its parent. -/
  parent : ℕ
  /-- The first of its children. -/
  children : ℕ
  /-- The next process on the list it is on. -/
  next : ℕ
  /-- The process before it. -/
  prev : ℕ
  deriving Inhabited

/-- The state of a thread. -/
inductive ThreadState where
  /-- `THREAD_STATE_RUNNING`. -/
  | running
  /-- `THREAD_STATE_READY`. -/
  | ready
  /-- `THREAD_STATE_BLOCKED`. -/
  | blocked
  /-- `THREAD_STATE_TERMINATED`. -/
  | terminated
  deriving DecidableEq, Inhabited

/-- A `thread_t`. -/
structure Thread where
  /-- Its number. -/
  tid : ℕ
  /-- The number of its process. -/
  pid : ℕ
  /-- What it is doing. -/
  state : ThreadState
  /-- The ticks it has left, a `uint64_t`. -/
  timeSlice : ℕ
  /-- The next thread on the queue it is on. -/
  next : ℕ
  /-- The thread before it. -/
  prev : ℕ
  deriving Inhabited

/-- The static variables of `process.c`, and the processes and threads. -/
structure System where
  /-- The processes, by pointer. -/
  procs : ℕ → Process
  /-- `process_list`. -/
  processList : ℕ
  /-- `current_process`. -/
  currentProcess : ℕ
  /-- `next_pid`. -/
  nextPid : ℕ
  /-- The threads, by pointer. -/
  threads : ℕ → Thread
  /-- `ready_queue`. -/
  readyQueue : ℕ
  /-- `current_thread`. -/
  currentThread : ℕ
  /-- `next_tid`. -/
  nextTid : ℕ
  deriving Inhabited

namespace System

/-- What a thread's pointer points at changes. -/
def setThread (s : System) (thread : ℕ) (f : Thread → Thread) : System :=
  { s with threads := Function.update s.threads thread (f (s.threads thread)) }

/-- What a process's pointer points at changes. -/
def setProc (s : System) (proc : ℕ) (f : Process → Process) : System :=
  { s with procs := Function.update s.procs proc (f (s.procs proc)) }

/-- `ready_queue = thread`. -/
def setReadyQueue (s : System) (thread : ℕ) : System := { s with readyQueue := thread }

/-- `process_list = proc`. -/
def setProcessList (s : System) (proc : ℕ) : System := { s with processList := proc }

/-- `proc->next` of every process. -/
def procNext (s : System) (proc : ℕ) : ℕ := (s.procs proc).next

/-- `proc->prev` of every process. -/
def procPrev (s : System) (proc : ℕ) : ℕ := (s.procs proc).prev

/-- `thread->next` of every thread. -/
def next (s : System) (thread : ℕ) : ℕ := (s.threads thread).next

/-- `thread->prev` of every thread. -/
def prev (s : System) (thread : ℕ) : ℕ := (s.threads thread).prev

/-- `thread->state` of every thread. -/
def state (s : System) (thread : ℕ) : ThreadState := (s.threads thread).state

/-- `thread->tid` of every thread. -/
def tid (s : System) (thread : ℕ) : ℕ := (s.threads thread).tid

end System

/-! ### The ready queue -/

/-- `process_find_by_pid`, from `proc` on, for a number of steps. -/
def findPid (procs : ℕ → Process) (pid : ℕ) : ℕ → ℕ → Option ℕ
  | 0, _ => none
  | steps + 1, proc =>
    if proc = 0 then some 0
    else if (procs proc).pid = pid then some proc
    else findPid procs pid steps (procs proc).next

/-- `process_find_by_pid`. -/
def processFindByPid (s : System) (pid : ℕ) : Option ℕ :=
  findPid s.procs pid addresses s.processList

/-- `scheduler_init`. -/
def schedulerInit (s : System) : System := { s with readyQueue := 0, currentThread := 0 }

/-- `scheduler_add_thread`. -/
def schedulerAddThread (s : System) (thread : ℕ) : System :=
  if thread = 0 then s
  else
    let s₁ := s.setThread thread fun t => { t with next := s.readyQueue, prev := 0 }
    let s₂ :=
      if s.readyQueue ≠ 0 then s₁.setThread s.readyQueue fun t => { t with prev := thread } else s₁
    s₂.setReadyQueue thread

/-- `scheduler_remove_thread`. -/
def schedulerRemoveThread (s : System) (thread : ℕ) : System :=
  if thread = 0 then s
  else
    let s :=
      if s.prev thread ≠ 0 then s.setThread (s.prev thread) fun t => { t with next := s.next thread }
      else s.setReadyQueue (s.next thread)
    let s :=
      if s.next thread ≠ 0 then s.setThread (s.next thread) fun t => { t with prev := s.prev thread }
      else s
    s.setThread thread fun t => { t with next := 0, prev := 0 }

/-- `scheduler_schedule`. With nothing ready the CPU halts until the next interrupt. -/
def schedulerSchedule (s : System) : Option System :=
  let nextThread := s.readyQueue
  if nextThread = 0 then some s
  else
    let s := { schedulerRemoveThread s nextThread with currentThread := nextThread }
    (processFindByPid s (s.threads nextThread).pid).map fun proc =>
      { s with currentProcess := proc }.setThread nextThread fun t => { t with state := .running }

/-! ### Threads -/

/-- `thread_create`: the two allocations return `thread` and `stackBase`. The thread
that is returned, or `NULL`. -/
def threadCreate (s : System) (proc thread stackBase : ℕ) : System × ℕ :=
  if proc = 0 then (s, 0)
  else if thread = 0 then (s, 0)
  else
    let s := { s with nextTid := wrap 32 (s.nextTid + 1) }.setThread thread fun _ =>
      { tid := s.nextTid, pid := (s.procs proc).pid, state := .ready, timeSlice := 10,
        next := 0, prev := 0 }
    if stackBase = 0 then (s, 0) else (s, thread)

/-- `thread_yield`. -/
def threadYield (s : System) : Option System :=
  schedulerSchedule <|
    if s.currentThread ≠ 0 then s.setThread s.currentThread fun t => { t with state := .ready } else s

/-- `thread_sleep`; the time is not used. -/
def threadSleep (s : System) : Option System :=
  if s.currentThread = 0 then some s
  else schedulerSchedule (s.setThread s.currentThread fun t => { t with state := .blocked })

/-- `thread_block`. -/
def threadBlock (s : System) (thread : ℕ) : System :=
  if thread = 0 then s
  else schedulerRemoveThread (s.setThread thread fun t => { t with state := .blocked }) thread

/-- `thread_unblock`. -/
def threadUnblock (s : System) (thread : ℕ) : System :=
  if thread = 0 then s
  else schedulerAddThread (s.setThread thread fun t => { t with state := .ready }) thread

/-- `scheduler_tick`. The slice is unsigned: it is at most 0 when it is 0. -/
def schedulerTick (s : System) : Option System :=
  if s.currentThread = 0 then some s
  else
    let s := s.setThread s.currentThread fun t => { t with timeSlice := wsub 64 t.timeSlice 1 }
    if (s.threads s.currentThread).timeSlice ≤ 0 then
      threadYield (s.setThread s.currentThread fun t => { t with timeSlice := 10 })
    else some s

end PrismaticOS.Kernel
