import PrismaticOS.Kernel.Tasks

/-!
# Processes

`process_create`, `process_destroy`, `process_exit`, `process_waitpid` and the signals
of `kernel/process.c`. All processes are on `process_list`, and the children of a
process on a list of their own from its field `children`; both lists go through the
fields `next` and `prev` of the processes.

## The model

What a process owns beside its place on the lists (its memory space, its descriptors,
who runs it) is left out: nothing here reads it. `kmalloc` and `mm_create_space` are
arguments, the pointers they return.

`process_destroy` calls itself, and `process_exit` and the handling of signals call
one another; each is given a number of nested calls or turns of a loop, and is `none`
if it needs more. A handler a program installed is code of that program and is not
here: to run one is `none` as well.

`process_waitpid` sleeps as long as the child it found is no zombie. A sleep hands the
CPU on, so one turn of that loop is one step (`waitTurn`), and the caller may be
between two turns for any length of time.
-/

namespace PrismaticOS.Kernel

open PrismaticOS.Library

/-! ### Signals -/

/-- `SIGINT`. -/
def sigInt : ℕ := 2

/-- `SIGKILL`. -/
def sigKill : ℕ := 9

/-- `SIGTERM`. -/
def sigTerm : ℕ := 15

/-- `SIGCHLD`. -/
def sigChld : ℕ := 17

/-- `SIGSTOP`. -/
def sigStop : ℕ := 19

/-- `SIGCONT`. -/
def sigCont : ℕ := 20

/-- `1 << (signum - 1)`. -/
def signalBit (signum : ℕ) : BitVec 32 := 1#32 <<< (signum - 1)

/-- `__builtin_ctz(signals) + 1`: the first signal that is pending. -/
def firstSignal (signals : BitVec 32) : ℕ := signals.ctz.toNat + 1

section

variable (handle : System → ℕ → Option System)

/-- `process_send_signal`, given what `process_handle_signals` does. -/
def sendSignalWith (s : System) (proc signum : ℕ) : Option System :=
  if proc = 0 ∨ signum < 1 ∨ 31 < signum then some s
  else
    let s := s.setProc proc fun p => { p with pendingSignals := p.pendingSignals ||| signalBit signum }
    if (s.procs proc).state = .running then handle s proc else some s

/-- `process_exit`, given what `process_handle_signals` does. -/
def exitWith (s : System) (proc : ℕ) (status : ℤ) : Option System :=
  if proc = 0 then some s
  else
    let s := s.setProc proc fun p => { p with state := .zombie, exitCode := status }
    let sent :=
      if (s.procs proc).parent ≠ 0 then sendSignalWith handle s (s.procs proc).parent sigChld
      else some s
    sent.bind fun s => if proc = s.currentProcess then schedulerSchedule s else some s

/-- What a signal does that no handler was installed for. -/
def defaultAction (s : System) (proc signum : ℕ) : Option System :=
  if signum = sigTerm ∨ signum = sigInt then exitWith handle s proc signum
  else if signum = sigKill then some (s.setProc proc fun p => { p with state := .terminated })
  else if signum = sigStop then some (s.setProc proc fun p => { p with state := .sleeping })
  else if signum = sigCont ∧ (s.procs proc).state = .sleeping then
    some (s.setProc proc fun p => { p with state := .running })
  else some s

end

/-- `process_handle_signals`, for a number of turns and nested calls. -/
def handleSignals : ℕ → System → ℕ → Option System
  | 0, _, _ => none
  | fuel + 1, s, proc =>
    if proc = 0 ∨ (s.procs proc).pendingSignals = 0 then some s
    else
      let signum := firstSignal (s.procs proc).pendingSignals
      let s := s.setProc proc fun p =>
        { p with pendingSignals := p.pendingSignals &&& ~~~signalBit signum }
      if (s.procs proc).signalHandlers signum ≠ 0 then none
      else (defaultAction (handleSignals fuel) s proc signum).bind (handleSignals fuel · proc)

/-- `process_handle_signals`. -/
def processHandleSignals (s : System) (proc : ℕ) : Option System := handleSignals addresses s proc

/-- `process_send_signal`. -/
def processSendSignal (s : System) (proc signum : ℕ) : Option System :=
  sendSignalWith processHandleSignals s proc signum

/-- `process_exit`. -/
def processExit (s : System) (proc : ℕ) (status : ℤ) : Option System :=
  exitWith processHandleSignals s proc status

/-! ### Creation and destruction -/

/-- `process_init`. -/
def processInit (s : System) : System :=
  { s with processList := 0, readyQueue := 0, currentThread := 0, currentProcess := 0,
           nextPid := 1, nextTid := 1 }

/-- `process_add_child`. -/
def processAddChild (s : System) (parent child : ℕ) : System :=
  let s := s.setProc child fun p => { p with parent := parent, next := (s.procs parent).children }
  let first := (s.procs parent).children
  let s := if first ≠ 0 then s.setProc first fun p => { p with prev := child } else s
  let s := s.setProc parent fun p => { p with children := child }
  s.setProc child fun p => { p with prev := 0 }

/-- `process_remove_child`. -/
def processRemoveChild (s : System) (parent child : ℕ) : System :=
  let s :=
    if s.procPrev child ≠ 0 then
      s.setProc (s.procPrev child) fun p => { p with next := s.procNext child }
    else s.setProc parent fun p => { p with children := s.procNext child }
  let s :=
    if s.procNext child ≠ 0 then
      s.setProc (s.procNext child) fun p => { p with prev := s.procPrev child }
    else s
  s.setProc child fun p => { p with parent := 0 }

/-- A new process is put on the list of all processes. -/
def listProcess (s : System) (proc : ℕ) : System :=
  let s₁ := s.setProc proc fun p => { p with next := s.processList }
  let s₂ :=
    if s.processList ≠ 0 then s₁.setProc s.processList fun p => { p with prev := proc } else s₁
  (s₂.setProcessList proc).setProc proc fun p => { p with prev := 0 }

/-- `process_create`: `kmalloc` returns `proc` and `mm_create_space` returns `space`. The
process that is returned, or `NULL`. -/
def processCreate (s : System) (proc space : ℕ) : System × ℕ :=
  if proc = 0 then (s, 0)
  else
    let ppid := if s.currentProcess ≠ 0 then (s.procs s.currentProcess).pid else 0
    let s := { s with nextPid := wrap 32 (s.nextPid + 1) }.setProc proc fun _ =>
      { pid := s.nextPid, ppid := ppid, state := .running, exitCode := 0, pendingSignals := 0,
        signalHandlers := fun _ => 0, parent := 0, children := 0, next := 0, prev := 0 }
    if space = 0 then (s, 0)
    else
      let s := listProcess s proc
      if s.currentProcess ≠ 0 then (processAddChild s s.currentProcess proc, proc) else (s, proc)

/-- A process is taken off the list of all processes. -/
def unlistProcess (s : System) (proc : ℕ) : System :=
  let s :=
    if s.procPrev proc ≠ 0 then
      s.setProc (s.procPrev proc) fun p => { p with next := s.procNext proc }
    else s.setProcessList (s.procNext proc)
  if s.procNext proc ≠ 0 then
    s.setProc (s.procNext proc) fun p => { p with prev := s.procPrev proc }
  else s

/-- The loop of `process_destroy` over the children, for a number of turns: the system, and
the processes that were freed. -/
def destroyChildren (destroy : System → ℕ → Option (System × List ℕ)) :
    ℕ → System → ℕ → Option (System × List ℕ)
  | 0, _, _ => none
  | steps + 1, s, child =>
    if child = 0 then some (s, [])
    else
      -- the link is read before the child is destroyed
      let next := s.procNext child
      (destroy s child).bind fun (s, freed) =>
        (destroyChildren destroy steps s next).map fun (s, freed') => (s, freed ++ freed')

/-- `process_destroy`, for a number of nested calls: the system, and the processes that
were freed. -/
def destroyWith : ℕ → System → ℕ → Option (System × List ℕ)
  | 0, _, _ => none
  | depth + 1, s, proc =>
    if proc = 0 then some (s, [])
    else
      let s := unlistProcess s proc
      let s :=
        if (s.procs proc).parent ≠ 0 then processRemoveChild s (s.procs proc).parent proc else s
      (destroyChildren (destroyWith depth) addresses s (s.procs proc).children).map
        fun (s, freed) => (s, freed ++ [proc])

/-- `process_destroy`. -/
def processDestroy (s : System) (proc : ℕ) : Option (System × List ℕ) :=
  destroyWith addresses s proc

/-! ### Waiting -/

/-- What a turn of the loop of `process_waitpid` ends with. -/
inductive Waited where
  /-- There is no such child: -1. -/
  | notFound
  /-- The caller slept, and looks at the child again. -/
  | slept (child : ℕ)
  /-- The child is a zombie and was destroyed: its number, the code it exited with, and
  the processes that were freed. -/
  | reaped (pid : ℕ) (status : ℤ) (freed : List ℕ)

/-- The child of the list from `child` on that `process_waitpid` is called for, or `NULL`;
-1 is any child. -/
def findChild (procs : ℕ → Process) (pid : ℕ) : ℕ → ℕ → Option ℕ
  | 0, _ => none
  | steps + 1, child =>
    if child = 0 then some 0
    else if (procs child).pid = pid ∨ pid = 2 ^ 32 - 1 then some child
    else findChild procs pid steps (procs child).next

/-- A turn of the loop of `process_waitpid`: it sleeps, or reaps the child. -/
def waitTurn (s : System) (child : ℕ) : Option (System × Waited) :=
  if (s.procs child).state ≠ .zombie then (threadSleep s).map fun s => (s, .slept child)
  else
    let status := (s.procs child).exitCode
    (processDestroy (processRemoveChild s s.currentProcess child) child).map fun (s, freed) =>
      (s, .reaped (s.procs child).pid status freed)

/-- `process_waitpid`, to the end of the first turn of its loop. -/
def processWaitpid (s : System) (pid : ℕ) : Option (System × Waited) :=
  if s.currentProcess = 0 then some (s, .notFound)
  else
    (findChild s.procs pid addresses (s.procs s.currentProcess).children).bind fun child =>
      if child = 0 then some (s, .notFound) else waitTurn s child

end PrismaticOS.Kernel
