import PrismaticOS.Kernel.ContextSwitch

/-!
# The start of a thread

What `thread_create` of `kernel/process.c` writes, and `thread_entry_wrapper`, which a new thread is
to begin with. There are two functions of this name, one in `kernel/process.c` and one in
`kernel/context.asm`.

## The model

A new thread is its `thread_t` and its stack, in memory. A wrapper is the instructions of it, with
`firstCall` for the function it calls first, the argument of that, and what follows when the
function has returned.

## What is proved

* `cWrapper_call`, `asmWrapper_call` — the one in C calls its first argument with the second one,
  the one in assembly calls its second argument with the first one.
* `resumed_regs` — a new thread goes on with both arguments `NULL`, at the address that the word at
  address 128 is.
* `thread_never_starts` — so the function that the thread is for is not called.
-/

namespace PrismaticOS.Kernel

open PrismaticOS.Library

/-! ### A new thread -/

/-- `memset(a, 0, n)`. -/
def clearBytes (m : Mem) (a n : ℕ) : Mem := fun x => if a ≤ x ∧ x < a + n then 0 else m x

/-- A field of a thread is assigned. -/
def setThreadField (m : Mem) (thread : ℕ) (f : ThreadField) (v : ℕ) : Mem :=
  storeLE m (thread + f.offset) f.size v

/-- The bytes of a stack. -/
def threadStackSize : ℕ := 0x10000

/-- What a thread is created with: the pointers that the two calls of `kmalloc` return, the
numbers, the function and its argument, and the addresses of the functions of the kernel. -/
structure NewThread where
  /-- The `thread_t`. -/
  thread : ℕ
  /-- `stack_base`. -/
  stackBase : ℕ
  /-- Its number. -/
  tid : ℕ
  /-- The number of the process. -/
  pid : ℕ
  /-- `start_routine`. -/
  startRoutine : UInt64
  /-- `arg`. -/
  arg : UInt64
  /-- `thread_entry_wrapper`. -/
  wrapper : UInt64
  /-- `thread_exit`. -/
  threadExit : UInt64

/-- The memory after `thread_create`. -/
def NewThread.created (t : NewThread) (m : Mem) : Mem :=
  let m := clearBytes m t.thread 152
  let m := setThreadField m t.thread .tid t.tid
  let m := setThreadField m t.thread .pid t.pid
  let m := setThreadField m t.thread .state 1
  let m := storeLE m (t.thread + 96) 1 5 -- `priority`
  let m := storeLE m (t.thread + 104) 8 10 -- `time_slice`
  let m := setThreadField m t.thread .stackBase t.stackBase
  let m := storeLE m (t.thread + 24) 8 (t.stackBase + threadStackSize) -- `stack_top`
  let rsp := t.stackBase + threadStackSize - 8
  let m := setThreadField m t.thread .rsp rsp
  if t.startRoutine ≠ 0 then
    let m := setThreadField m t.thread .rip t.wrapper.toNat
    let m := storeLE m (rsp - 8) 8 t.arg.toNat
    let m := storeLE m (rsp - 16) 8 t.startRoutine.toNat
    let m := storeLE m (rsp - 24) 8 t.threadExit.toNat
    setThreadField m t.thread .rsp (rsp - 24)
  else m

/-! ### The wrappers -/

/-- The instructions of the wrappers. -/
inductive EntryInstr where
  /-- `push src`. -/
  | push (src : Reg)
  /-- `mov dst, [base + disp]`. -/
  | load (dst base : Reg) (disp : ℕ)
  /-- `mov dst, src`. -/
  | move (dst src : Reg)
  /-- `call [base]`. -/
  | callMem (base : Reg)
  /-- `call target`. -/
  | callReg (target : Reg)
  /-- `call thread_exit`. -/
  | callThreadExit
  /-- `hlt`. -/
  | hlt

/-- `thread_entry_wrapper` of `context.asm`. -/
def asmWrapper : List EntryInstr :=
  [.push .rdi, .push .rsi, .load .rdi .rsp 8, .callMem .rsp, .move .rdi .rax, .callThreadExit, .hlt]

/-- `thread_entry_wrapper` of `process.c`: `start_routine` is in `rdi` and `arg` in `rsi`. -/
def cWrapper : List EntryInstr :=
  [.move .rax .rdi, .move .rdi .rsi, .callReg .rax, .move .rdi .rax, .callThreadExit]

/-- The function that is called. -/
inductive Callee where
  /-- The one at an address. -/
  | code (address : UInt64)
  /-- `thread_exit`. -/
  | threadExit

/-- A call: the function, its first argument, and the instructions after it. -/
structure EntryCall where
  /-- What is called. -/
  callee : Callee
  /-- What it is called with. -/
  arg : UInt64
  /-- What is done when it has returned. -/
  rest : List EntryInstr

/-- `push src`. -/
def Cpu.push (s : Cpu) (src : Reg) : Cpu :=
  { s with regs := Function.update s.regs .rsp (s.regs .rsp - 8)
           mem := storeLE s.mem (s.regs .rsp - 8).toNat 8 (s.regs src).toNat }

/-- The first call that is made. -/
def firstCall : List EntryInstr → Cpu → Option EntryCall
  | [], _ => none
  | .push src :: rest, s => firstCall rest (s.push src)
  | .load dst base disp :: rest, s => firstCall rest (s.exec (.load dst base disp))
  | .move dst src :: rest, s =>
    firstCall rest { s with regs := Function.update s.regs dst (s.regs src) }
  | .callMem base :: rest, s => some ⟨.code (word s.mem (s.address base 0)), s.regs .rdi, rest⟩
  | .callReg target :: rest, s => some ⟨.code (s.regs target), s.regs .rdi, rest⟩
  | .callThreadExit :: rest, s => some ⟨.threadExit, s.regs .rdi, rest⟩
  | .hlt :: _, _ => none

/-! ### What they are for -/

/-- The wrapper calls `f` with `x`, and `thread_exit` with what that returns. -/
def Starts (code : List EntryInstr) (s : Cpu) (f x : UInt64) : Prop :=
  ∃ rest, firstCall code s = some ⟨.code f, x, rest⟩ ∧
    ∀ s' : Cpu, ∃ rest', firstCall rest s' = some ⟨.threadExit, s'.regs .rax, rest'⟩

/-- `context_switch(from_, t.thread)` is called for the first time since `thread_create`: nobody has
written the context and the stack of the thread. -/
structure FirstResumed (t : NewThread) (m : Mem) (from_ : ℕ) (s : Cpu) : Prop where
  /-- The arguments. -/
  called : Called s from_ t.thread
  /-- The other thread. -/
  apart : from_ + 152 ≤ t.thread ∨ t.thread + 152 ≤ from_
  /-- It is in memory. -/
  from_le : from_ + 152 ≤ 2 ^ 64
  /-- And so is this one. -/
  thread_le : t.thread + 152 ≤ 2 ^ 64
  /-- The stack is another block. -/
  stack : t.stackBase + threadStackSize ≤ t.thread ∨ t.thread + 152 ≤ t.stackBase
  /-- The context. -/
  context : ∀ y, t.thread + 16 ≤ y → y < t.thread + 96 → s.mem y = t.created m y
  /-- The stack. -/
  image : ∀ y, t.stackBase ≤ y → y < t.stackBase + threadStackSize → s.mem y = t.created m y

/-! ### The calls of the wrappers -/

/-- The wrapper in C calls its first argument with the second one. -/
theorem cWrapper_call (s : Cpu) : firstCall cWrapper s =
    some ⟨.code (s.regs .rdi), s.regs .rsi, [.move .rdi .rax, .callThreadExit]⟩ := rfl

variable {a : ℕ} {m : Mem} {s : Cpu} {t : NewThread}

/-- What is pushed is at the new top of the stack. -/
theorem word_push (s : Cpu) (src : Reg) :
    word (s.push src).mem ((s.push src).address .rsp 0) = s.regs src := by
  have haddress : (s.push src).address .rsp 0 = (s.regs .rsp - 8).toNat := by
    rw [Cpu.address, Nat.add_zero, Nat.mod_eq_of_lt (UInt64.toNat_lt _)]
    rfl
  rw [haddress]
  exact word_store _ _ _

/-- What was pushed before is below it. -/
theorem word_push_push (s : Cpu) (first second : Reg) :
    word ((s.push first).push second).mem (((s.push first).push second).address .rsp 8) =
      s.regs first := by
  have haddress : ((s.push first).push second).address .rsp 8 = (s.regs .rsp - 8).toNat := by
    have hrsp : ((s.push first).push second).regs .rsp = s.regs .rsp - 8 - 8 := rfl
    rw [Cpu.address, hrsp, UInt64.toNat_sub (s.regs .rsp - 8)]
    have hlt := UInt64.toNat_lt (s.regs .rsp - 8)
    have h8 : (8 : UInt64).toNat = 8 := rfl
    omega
  have hapart : (s.regs .rsp - 8).toNat + 8 ≤ (s.regs .rsp - 8 - 8).toNat ∨
      (s.regs .rsp - 8 - 8).toNat + 8 ≤ (s.regs .rsp - 8).toNat := by
    rw [UInt64.toNat_sub (s.regs .rsp - 8)]
    have hlt := UInt64.toNat_lt (s.regs .rsp - 8)
    have h8 : (8 : UInt64).toNat = 8 := rfl
    omega
  rw [haddress, word]
  show UInt64.ofNat (loadLE (storeLE (s.push first).mem (s.regs .rsp - 8 - 8).toNat 8 _) _ 8) = _
  rw [loadLE_storeLE_of_disjoint _ _ hapart]
  exact word_store _ _ _

/-- **The wrapper in assembly** calls its second argument with the first one. -/
theorem asmWrapper_call (s : Cpu) : firstCall asmWrapper s =
    some ⟨.code (s.regs .rsi), s.regs .rdi, [.move .rdi .rax, .callThreadExit, .hlt]⟩ := by
  have hcall : firstCall asmWrapper s =
      some ⟨.code (word ((s.push .rdi).push .rsi).mem (((s.push .rdi).push .rsi).address .rsp 0)),
        word ((s.push .rdi).push .rsi).mem (((s.push .rdi).push .rsi).address .rsp 8),
        [.move .rdi .rax, .callThreadExit, .hlt]⟩ := rfl
  rw [hcall, word_push, word_push_push]
  rfl

/-! ### The first resumption -/

theorem loadLE_clearBytes {b k n : ℕ} (h₁ : a ≤ b) (h₂ : b + k ≤ a + n) :
    loadLE (clearBytes m a n) b k = 0 := by
  induction k generalizing b with
  | zero => rfl
  | succ k ih =>
    have hbyte : clearBytes m a n b = 0 := if_pos ⟨h₁, by omega⟩
    rw [loadLE, hbyte, ih (by omega) (by omega)]
    rfl

/-- The end of the context of a new thread is zeros. -/
theorem created_zero {d : ℕ}
    (hstack : t.stackBase + threadStackSize ≤ t.thread ∨ t.thread + 152 ≤ t.stackBase)
    (h₁ : 48 ≤ d) (h₂ : d + 8 ≤ 96) : loadLE (t.created m) (t.thread + d) 8 = 0 := by
  have hsize : threadStackSize = 65536 := rfl
  unfold NewThread.created setThreadField
  dsimp only [ThreadField.offset, ThreadField.size]
  split
  · simp (disch := omega) only [loadLE_storeLE_of_disjoint, loadLE_clearBytes]
  · simp (disch := omega) only [loadLE_storeLE_of_disjoint, loadLE_clearBytes]

/-- **The registers of a new thread**: both arguments are `NULL`, and it goes on where the word at
address 128 points. -/
theorem resumed_regs (h : FirstResumed t m a s) :
    s.switched.regs .rdi = 0 ∧ s.switched.regs .rsi = 0 ∧
      s.switched.rip = word (saveContext s.regs a s.mem) 128 := by
  have hzero : ∀ d, 80 ≤ d → d + 8 ≤ 96 →
      word (saveContext s.regs a s.mem) ((t.thread + d) % 2 ^ 64) = 0 := by
    intro d h₁ h₂
    have hsame : loadLE s.mem (t.thread + d) 8 = loadLE (t.created m) (t.thread + d) 8 := by
      apply loadLE_congr
      intro y hy
      rw [Set.mem_Ico] at hy
      exact h.context y (by omega) (by omega)
    rw [word, load_slot h.apart h.thread_le (by omega), hsame, created_zero h.stack (by omega) h₂]
    rfl
  rw [switched_eq h.called h.from_le]
  dsimp only [loadedRegs]
  rw [h.called.rsi, hzero 80 (by decide) (by decide), hzero 88 (by decide) (by decide)]
  exact ⟨rfl, rfl, rfl⟩

/-- **No thread starts**: resumed for the first time, neither wrapper calls the function that the
thread is for. -/
theorem thread_never_starts (t : NewThread) (m : Mem) (a : ℕ) (s : Cpu)
    (h : FirstResumed t m a s) (hf : t.startRoutine ≠ 0) :
    ∀ code ∈ [cWrapper, asmWrapper], ¬ Starts code s.switched t.startRoutine t.arg := by
  obtain ⟨hrdi, hrsi, -⟩ := resumed_regs h
  have hnull : ∀ code ∈ [cWrapper, asmWrapper], ∃ rest,
      firstCall code s.switched = some ⟨.code 0, 0, rest⟩ := by
    intro code hcode
    simp only [List.mem_cons, List.not_mem_nil, or_false] at hcode
    rcases hcode with rfl | rfl
    · exact ⟨_, by rw [cWrapper_call, hrdi, hrsi]⟩
    · exact ⟨_, by rw [asmWrapper_call, hrdi, hrsi]⟩
  rintro code hcode ⟨rest, hcall, -⟩
  obtain ⟨rest', hcall'⟩ := hnull code hcode
  rw [hcall', Option.some.injEq, EntryCall.mk.injEq, Callee.code.injEq] at hcall
  exact hf hcall.1.symm

/-- A thread at 8192 with its stack at 65536. -/
def someThread : NewThread where
  thread := 8192
  stackBase := 65536
  tid := 1
  pid := 1
  startRoutine := 4096
  arg := 7
  wrapper := 2048
  threadExit := 3072

theorem someThread_resumed : FirstResumed someThread (fun _ => 0) 4096
    (callingCpu 4096 8192 0 (someThread.created fun _ => 0)) where
  called := ⟨rfl, rfl⟩
  apart := by decide
  from_le := by decide
  thread_le := by decide
  stack := by decide
  context := fun _ _ _ => rfl
  image := fun _ _ _ => rfl

theorem someThread_never_starts :
    ¬ Starts cWrapper (callingCpu 4096 8192 0 (someThread.created fun _ => 0)).switched 4096 7 ∧
      ¬ Starts asmWrapper (callingCpu 4096 8192 0 (someThread.created fun _ => 0)).switched 4096 7 := by
  have h := thread_never_starts someThread _ _ _ someThread_resumed (by decide)
  exact ⟨h cWrapper (.head _), h asmWrapper (.tail _ (.head _))⟩

/-- The function of a thread is not called. -/
theorem start_routine_not_called : ¬ ∀ (t : NewThread) (m : Mem) (a : ℕ) (s : Cpu),
    FirstResumed t m a s → t.startRoutine ≠ 0 →
      ∃ code ∈ [cWrapper, asmWrapper], Starts code s.switched t.startRoutine t.arg := by
  intro h
  obtain ⟨code, hcode, rest, hcall, -⟩ := h _ _ _ _ someThread_resumed (by decide)
  obtain ⟨hrdi, hrsi, -⟩ := resumed_regs someThread_resumed
  simp only [List.mem_cons, List.not_mem_nil, or_false] at hcode
  rcases hcode with rfl | rfl
  · rw [cWrapper_call, hrdi] at hcall
    cases hcall
  · rw [asmWrapper_call, hrsi] at hcall
    cases hcall

end PrismaticOS.Kernel
