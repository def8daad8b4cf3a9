import PrismaticOS.Library.Memory

/-!
# Switching between threads

`context_switch` of `kernel/context.asm`, and the structure that it stores the registers in.

## The model

A processor with sixteen registers and a byte memory, and the three kinds of instructions that
`context_switch` has. `ThreadField` are fields of `thread_t` in `process.h`, with the places
that a C compiler for 64 bits gives them; the assembly uses places of its own.

`SwitchesBack` is what two calls are for: the first one, by thread `a`, goes on with thread `b`,
and the second one, by `b`, goes on with `a` where it was.

## What is proved

* `saves_eq`, `loads_eq` — what the two halves of the function do.
* `switches_back_iff` — the calls do what they are for only if the registers happen to be what
  the fields of the threads are that their places overlap.
-/

namespace PrismaticOS.Kernel

open PrismaticOS.Library

/-! ### The processor -/

/-- The registers. -/
inductive Reg where
  /-- The old ones. -/
  | rax | rbx | rcx | rdx | rsi | rdi | rbp | rsp
  /-- The new ones. -/
  | r8 | r9 | r10 | r11 | r12 | r13 | r14 | r15
  deriving DecidableEq

/-- A processor and its memory. -/
structure Cpu where
  /-- The registers. -/
  regs : Reg → UInt64
  /-- The memory. -/
  mem : Mem
  /-- The address of the next instruction, after a jump. -/
  rip : UInt64

/-- The instructions. -/
inductive Instr where
  /-- `mov [base + disp], src`. -/
  | store (base : Reg) (disp : ℕ) (src : Reg)
  /-- `mov dst, [base + disp]`. -/
  | load (dst base : Reg) (disp : ℕ)
  /-- `jmp target`. -/
  | jmp (target : Reg)

/-- The word at an address. -/
def word (m : Mem) (a : ℕ) : UInt64 := UInt64.ofNat (loadLE m a 8)

/-- The address `base + disp`. -/
def Cpu.address (s : Cpu) (base : Reg) (disp : ℕ) : ℕ := ((s.regs base).toNat + disp) % 2 ^ 64

/-- An instruction. -/
def Cpu.exec (s : Cpu) : Instr → Cpu
  | .store base disp src =>
    { s with mem := storeLE s.mem (s.address base disp) 8 (s.regs src).toNat }
  | .load dst base disp =>
    { s with regs := Function.update s.regs dst (word s.mem (s.address base disp)) }
  | .jmp target => { s with rip := s.regs target }

/-- Instructions one after the other. -/
def Cpu.execAll (s : Cpu) (code : List Instr) : Cpu := code.foldl Cpu.exec s

/-- `context_switch`. -/
def contextSwitch : List Instr :=
  [.store .rdi 8 .r15, .store .rdi 16 .r14, .store .rdi 24 .r13, .store .rdi 32 .r12,
    .store .rdi 40 .r11, .store .rdi 48 .r10, .store .rdi 56 .r9, .store .rdi 64 .r8,
    .store .rdi 72 .rbp, .store .rdi 80 .rdi, .store .rdi 88 .rsi, .store .rdi 96 .rdx,
    .store .rdi 104 .rcx, .store .rdi 112 .rbx, .store .rdi 120 .rax, .store .rdi 0 .rsp,
    .store .rdi 128 .r9,
    .load .rsp .rsi 0, .load .r15 .rsi 8, .load .r14 .rsi 16, .load .r13 .rsi 24,
    .load .r12 .rsi 32, .load .r11 .rsi 40, .load .r10 .rsi 48, .load .r9 .rsi 56,
    .load .r8 .rsi 64, .load .rbp .rsi 72, .load .rdi .rsi 80, .load .rsi .rsi 88,
    .load .rdx .rsi 96, .load .rcx .rsi 104, .load .rbx .rsi 112, .load .rax .rsi 120,
    .load .r9 .rsi 128, .jmp .r9]

/-! ### Threads -/

/-- Fields of `thread_t`. -/
inductive ThreadField where
  /-- What the thread is. -/
  | tid | pid | state | stackBase
  /-- Its context. -/
  | rsp | rip | rbx | rbp | r12 | r13 | r14 | r15

namespace ThreadField

/-- The offset of a field. -/
def offset : ThreadField → ℕ
  | tid => 0
  | pid => 4
  | state => 8
  | stackBase => 16
  | rsp => 32
  | rip => 40
  | rbx => 48
  | rbp => 56
  | r12 => 64
  | r13 => 72
  | r14 => 80
  | r15 => 88

/-- The bytes of a field. -/
def size : ThreadField → ℕ
  | tid => 4
  | pid => 4
  | state => 1
  | stackBase => 8
  | rsp => 8
  | rip => 8
  | rbx => 8
  | rbp => 8
  | r12 => 8
  | r13 => 8
  | r14 => 8
  | r15 => 8

end ThreadField

/-- A field of the thread at an address. -/
def threadField (m : Mem) (thread : ℕ) (f : ThreadField) : ℕ :=
  loadLE m (thread + f.offset) f.size

/-! ### What the calls are for -/

/-- The registers that a switch restores, with their fields. -/
def contextRegs : List (Reg × ThreadField) :=
  [(.rsp, .rsp), (.rbx, .rbx), (.rbp, .rbp), (.r12, .r12), (.r13, .r13), (.r14, .r14),
    (.r15, .r15)]

/-- The fields of a thread that a switch leaves. -/
def FieldsKept (m m' : Mem) (thread : ℕ) : Prop :=
  ∀ f ∈ [ThreadField.tid, .pid, .state, .stackBase], threadField m' thread f = threadField m thread f

/-- `context_switch(from, to)` is called: the arguments are in `rdi` and `rsi`. -/
structure Called (s : Cpu) (from_ to_ : ℕ) : Prop where
  /-- The first argument. -/
  rdi : (s.regs .rdi).toNat = from_
  /-- The second argument. -/
  rsi : (s.regs .rsi).toNat = to_

/-- The processor after the call `context_switch`. -/
def Cpu.switched (s : Cpu) : Cpu := s.execAll contextSwitch

/-- What a call `context_switch(a, b)` in `s₁` and a later call `context_switch(b, a)` in `s₂`
are for. -/
structure SwitchesBack (a b : ℕ) (s₁ s₂ : Cpu) : Prop where
  /-- The first call loads the registers of `b`. -/
  loaded : ∀ p ∈ contextRegs, (s₁.switched.regs p.1).toNat = threadField s₁.mem b p.2
  /-- It goes on where `b` is to go on. -/
  started : s₁.switched.rip.toNat = threadField s₁.mem b .rip
  /-- It leaves the other fields of both threads. -/
  kept₁ : FieldsKept s₁.mem s₁.switched.mem a ∧ FieldsKept s₁.mem s₁.switched.mem b
  /-- The second call restores the registers of `a`. -/
  restored : ∀ p ∈ contextRegs, s₂.switched.regs p.1 = s₁.regs p.1
  /-- It goes on at the return address of the first call. -/
  resumed : s₂.switched.rip = word s₁.mem (s₁.regs .rsp).toNat
  /-- It leaves the other fields of both threads. -/
  kept₂ : FieldsKept s₂.mem s₂.switched.mem a ∧ FieldsKept s₂.mem s₂.switched.mem b

/-! ### The two halves -/

/-- The places where `context_switch` stores the registers. -/
def contextSlots : List (ℕ × Reg) :=
  [(8, .r15), (16, .r14), (24, .r13), (32, .r12), (40, .r11), (48, .r10), (56, .r9), (64, .r8),
    (72, .rbp), (80, .rdi), (88, .rsi), (96, .rdx), (104, .rcx), (112, .rbx), (120, .rax),
    (0, .rsp), (128, .r9)]

/-- Registers stored in some places of a thread. -/
def saveRegs (slots : List (ℕ × Reg)) (regs : Reg → UInt64) (thread : ℕ) (m : Mem) : Mem :=
  slots.foldl (fun m p => storeLE m (thread + p.1) 8 (regs p.2).toNat) m

/-- The second half of `context_switch`. -/
def contextLoads : List Instr := contextSwitch.drop 17

/-- The registers after the second half, when `rsi` was `to_`. -/
def loadedRegs (m : Mem) (to_ : UInt64) : Reg → UInt64
  | .rsp => word m ((to_.toNat + 0) % 2 ^ 64)
  | .r15 => word m ((to_.toNat + 8) % 2 ^ 64)
  | .r14 => word m ((to_.toNat + 16) % 2 ^ 64)
  | .r13 => word m ((to_.toNat + 24) % 2 ^ 64)
  | .r12 => word m ((to_.toNat + 32) % 2 ^ 64)
  | .r11 => word m ((to_.toNat + 40) % 2 ^ 64)
  | .r10 => word m ((to_.toNat + 48) % 2 ^ 64)
  | .r8 => word m ((to_.toNat + 64) % 2 ^ 64)
  | .rbp => word m ((to_.toNat + 72) % 2 ^ 64)
  | .rdi => word m ((to_.toNat + 80) % 2 ^ 64)
  | .rsi => word m ((to_.toNat + 88) % 2 ^ 64)
  | .rdx => word m (((word m ((to_.toNat + 88) % 2 ^ 64)).toNat + 96) % 2 ^ 64)
  | .rcx => word m (((word m ((to_.toNat + 88) % 2 ^ 64)).toNat + 104) % 2 ^ 64)
  | .rbx => word m (((word m ((to_.toNat + 88) % 2 ^ 64)).toNat + 112) % 2 ^ 64)
  | .rax => word m (((word m ((to_.toNat + 88) % 2 ^ 64)).toNat + 120) % 2 ^ 64)
  | .r9 => word m (((word m ((to_.toNat + 88) % 2 ^ 64)).toNat + 128) % 2 ^ 64)

/-- The stores of a list of registers. -/
theorem execAll_stores (slots : List (ℕ × Reg)) (s : Cpu)
    (h : ∀ p ∈ slots, (s.regs .rdi).toNat + p.1 < 2 ^ 64) :
    s.execAll (slots.map fun p => .store .rdi p.1 p.2) =
      { s with mem := saveRegs slots s.regs (s.regs .rdi).toNat s.mem } := by
  induction slots generalizing s with
  | nil => rfl
  | cons p slots ih =>
    have haddress : s.address .rdi p.1 = (s.regs .rdi).toNat + p.1 :=
      Nat.mod_eq_of_lt (h p List.mem_cons_self)
    have hexec : s.exec (.store .rdi p.1 p.2) = { s with
        mem := storeLE s.mem ((s.regs .rdi).toNat + p.1) 8 (s.regs p.2).toNat } := by
      rw [Cpu.exec, haddress]
    show (s.exec (.store .rdi p.1 p.2)).execAll (slots.map fun p => .store .rdi p.1 p.2) = _
    rw [ih _ (fun q hq => hexec ▸ h q (List.mem_cons_of_mem p hq)), hexec]
    rfl

/-- **The second half** loads `rsi` before the last registers, which come from where the new
`rsi` points. -/
theorem loads_eq (s : Cpu) : s.execAll contextLoads =
    { regs := loadedRegs s.mem (s.regs .rsi)
      mem := s.mem
      rip := loadedRegs s.mem (s.regs .rsi) .r9 } := by
  have hregs : (s.execAll contextLoads).regs = loadedRegs s.mem (s.regs .rsi) := by
    funext r
    cases r <;> rfl
  have hrip : (s.execAll contextLoads).rip = loadedRegs s.mem (s.regs .rsi) .r9 := rfl
  have hmem : (s.execAll contextLoads).mem = s.mem := rfl
  rw [← hregs, ← hmem]
  rfl

variable {a b t : ℕ} {m : Mem} {s s₁ s₂ : Cpu} {regs : Reg → UInt64} {slots : List (ℕ × Reg)}

theorem loadLE_word (m : Mem) (x : ℕ) : (word m x).toNat = loadLE m x 8 := by
  unfold word
  rw [UInt64.toNat_ofNat']
  exact Nat.mod_eq_of_lt (loadLE_lt m x 8)

theorem word_store (m : Mem) (x : ℕ) (v : UInt64) : word (storeLE m x 8 v.toNat) x = v := by
  unfold word
  have hlt : v.toNat < 256 ^ 8 := v.toNat_lt.trans_eq (by norm_num)
  rw [loadLE_storeLE, Nat.mod_eq_of_lt hlt]
  exact UInt64.ofNat_toNat

/-- Nothing but the places of the registers changes. -/
theorem saveRegs_frame {x k : ℕ} (h : ∀ p ∈ slots, x + k ≤ t + p.1 ∨ t + p.1 + 8 ≤ x) :
    loadLE (saveRegs slots regs t m) x k = loadLE m x k := by
  induction slots generalizing m with
  | nil => rfl
  | cons p slots ih =>
    have hrest := ih (m := storeLE m (t + p.1) 8 (regs p.2).toNat) fun q hq =>
      h q (List.mem_cons_of_mem p hq)
    have hfirst := loadLE_storeLE_of_disjoint m (regs p.2).toNat (h p List.mem_cons_self)
    exact hrest.trans hfirst

/-- A register is in its place. -/
theorem saveRegs_mem (hapart : slots.Pairwise fun p q => p.1 + 8 ≤ q.1 ∨ q.1 + 8 ≤ p.1)
    {p : ℕ × Reg} (hp : p ∈ slots) : word (saveRegs slots regs t m) (t + p.1) = regs p.2 := by
  induction slots generalizing m with
  | nil => cases hp
  | cons q slots ih =>
    rw [List.pairwise_cons] at hapart
    rcases List.mem_cons.mp hp with rfl | hp
    · have hframe : loadLE (saveRegs slots regs t (storeLE m (t + p.1) 8 (regs p.2).toNat))
          (t + p.1) 8 = loadLE (storeLE m (t + p.1) 8 (regs p.2).toNat) (t + p.1) 8 := by
        apply saveRegs_frame
        intro q hq
        rcases hapart.1 q hq with hle | hle <;> omega
      have hstored := word_store m (t + p.1) (regs p.2)
      unfold word at hstored ⊢
      rw [← hstored]
      exact congrArg UInt64.ofNat hframe
    · exact ih hapart.2 hp

/-- Memory with the context of a thread stored as `context_switch` does. -/
def saveContext (regs : Reg → UInt64) (thread : ℕ) (m : Mem) : Mem :=
  saveRegs contextSlots regs thread m

theorem contextSlots_apart :
    contextSlots.Pairwise fun p q => p.1 + 8 ≤ q.1 ∨ q.1 + 8 ≤ p.1 := by decide

theorem contextSlots_le : ∀ p ∈ contextSlots, p.1 ≤ 128 := by decide

/-- A register in the context. -/
theorem saveContext_slot (regs : Reg → UInt64) (t : ℕ) (m : Mem) {d : ℕ} {r : Reg}
    (h : (d, r) ∈ contextSlots) : word (saveContext regs t m) (t + d) = regs r := by
  unfold saveContext
  exact saveRegs_mem contextSlots_apart (p := (d, r)) h

/-- What is not in the thread stays. -/
theorem saveContext_frame {x k : ℕ} (h : x + k ≤ t ∨ t + 152 ≤ x) :
    loadLE (saveContext regs t m) x k = loadLE m x k := by
  apply saveRegs_frame
  intro p hp
  have hle := contextSlots_le p hp
  omega

/-- **A call of `context_switch`.** -/
theorem switched_eq (h : Called s a b) (ha : a + 152 ≤ 2 ^ 64) : s.switched =
    { regs := loadedRegs (saveContext s.regs a s.mem) (s.regs .rsi)
      mem := saveContext s.regs a s.mem
      rip := loadedRegs (saveContext s.regs a s.mem) (s.regs .rsi) .r9 } := by
  have hcode : contextSwitch =
      (contextSlots.map fun p => .store .rdi p.1 p.2) ++ contextLoads := rfl
  have hstores := execAll_stores contextSlots s (by
    intro p hp
    have hle := contextSlots_le p hp
    rw [h.rdi]
    omega)
  rw [h.rdi] at hstores
  unfold Cpu.switched
  rw [hcode, Cpu.execAll, List.foldl_append]
  show (s.execAll (contextSlots.map fun p => .store .rdi p.1 p.2)).execAll contextLoads = _
  rw [hstores, loads_eq]
  rfl

/-! ### When it works -/

/-- The registers are what the fields of the thread are that they are stored over. -/
structure OverFields (s : Cpu) (thread : ℕ) : Prop where
  /-- `rsp` is stored over `tid`. -/
  tid : (s.regs .rsp).toNat % 2 ^ 32 = threadField s.mem thread .tid
  /-- And over `pid`. -/
  pid : (s.regs .rsp).toNat / 2 ^ 32 = threadField s.mem thread .pid
  /-- `r15` is stored over `state`. -/
  state : (s.regs .r15).toNat % 2 ^ 8 = threadField s.mem thread .state
  /-- `r14` is stored over `stack_base`. -/
  stackBase : (s.regs .r14).toNat = threadField s.mem thread .stackBase

/-- The words that are loaded for `b` are those in its fields. The last two come from where the
field `r15` points, after the registers of `a` were stored. -/
structure FromFields (s : Cpu) (a b : ℕ) : Prop where
  /-- `rsp`. -/
  rsp : loadLE s.mem b 8 = threadField s.mem b .rsp
  /-- `r15`. -/
  r15 : loadLE s.mem (b + 8) 8 = threadField s.mem b .r15
  /-- `r14`. -/
  r14 : loadLE s.mem (b + 16) 8 = threadField s.mem b .r14
  /-- `r13`. -/
  r13 : loadLE s.mem (b + 24) 8 = threadField s.mem b .r13
  /-- `r12`. -/
  r12 : loadLE s.mem (b + 32) 8 = threadField s.mem b .r12
  /-- `rbp`. -/
  rbp : loadLE s.mem (b + 72) 8 = threadField s.mem b .rbp
  /-- `rbx`. -/
  rbx : loadLE (saveContext s.regs a s.mem) ((threadField s.mem b .r15 + 112) % 2 ^ 64) 8 =
    threadField s.mem b .rbx
  /-- `rip`. -/
  rip : loadLE (saveContext s.regs a s.mem) ((threadField s.mem b .r15 + 128) % 2 ^ 64) 8 =
    threadField s.mem b .rip

/-- The fields of the thread whose registers are stored. -/
theorem kept_self (s : Cpu) (t : ℕ) :
    FieldsKept s.mem (saveContext s.regs t s.mem) t ↔ OverFields s t := by
  have hrsp : loadLE (saveContext s.regs t s.mem) (t + 0) 8 = (s.regs .rsp).toNat := by
    rw [← loadLE_word, saveContext_slot _ _ _ (show (0, Reg.rsp) ∈ contextSlots by decide)]
  have hr15 : loadLE (saveContext s.regs t s.mem) (t + 8) 8 = (s.regs .r15).toNat := by
    rw [← loadLE_word, saveContext_slot _ _ _ (show (8, Reg.r15) ∈ contextSlots by decide)]
  have hr14 : loadLE (saveContext s.regs t s.mem) (t + 16) 8 = (s.regs .r14).toNat := by
    rw [← loadLE_word, saveContext_slot _ _ _ (show (16, Reg.r14) ∈ contextSlots by decide)]
  have htid : threadField (saveContext s.regs t s.mem) t .tid = (s.regs .rsp).toNat % 2 ^ 32 := by
    have hpart := loadLE_part (saveContext s.regs t s.mem) (t + 0) (n := 8) (i := 0) (k := 4)
      (by decide)
    rw [hrsp] at hpart
    simpa [threadField, ThreadField.offset, ThreadField.size] using hpart
  have hpid : threadField (saveContext s.regs t s.mem) t .pid = (s.regs .rsp).toNat / 2 ^ 32 := by
    have hpart := loadLE_part (saveContext s.regs t s.mem) (t + 0) (n := 8) (i := 4) (k := 4)
      (by decide)
    have hlt := (s.regs .rsp).toNat_lt
    rw [hrsp, Nat.mod_eq_of_lt (by omega)] at hpart
    simpa [threadField, ThreadField.offset, ThreadField.size] using hpart
  have hstate : threadField (saveContext s.regs t s.mem) t .state =
      (s.regs .r15).toNat % 2 ^ 8 := by
    have hpart := loadLE_part (saveContext s.regs t s.mem) (t + 8) (n := 8) (i := 0) (k := 1)
      (by decide)
    rw [hr15] at hpart
    simpa [threadField, ThreadField.offset, ThreadField.size] using hpart
  have hstack : threadField (saveContext s.regs t s.mem) t .stackBase = (s.regs .r14).toNat :=
    hr14
  unfold FieldsKept
  simp only [List.forall_mem_cons, List.not_mem_nil, false_implies, implies_true, and_true, htid,
    hpid, hstate, hstack]
  exact ⟨fun h => ⟨h.1, h.2.1, h.2.2.1, h.2.2.2⟩, fun h => ⟨h.tid, h.pid, h.state, h.stackBase⟩⟩

/-- The fields of another thread. -/
theorem saveContext_field (h : a + 152 ≤ b ∨ b + 152 ≤ a) (f : ThreadField) :
    threadField (saveContext regs a m) b f = threadField m b f := by
  have hin : f.offset + f.size ≤ 152 := by cases f <;> decide
  apply saveContext_frame
  omega

theorem kept_other (h : a + 152 ≤ b ∨ b + 152 ≤ a) : FieldsKept m (saveContext regs a m) b :=
  fun f _ => saveContext_field h f

/-- A word of the thread that is loaded. -/
theorem load_slot (h : a + 152 ≤ b ∨ b + 152 ≤ a) (hb : b + 152 ≤ 2 ^ 64) {d : ℕ}
    (hd : d + 8 ≤ 152) : loadLE (saveContext regs a m) ((b + d) % 2 ^ 64) 8 = loadLE m (b + d) 8 := by
  rw [Nat.mod_eq_of_lt (by omega)]
  apply saveContext_frame
  omega

/-- **Going on with `b`.** -/
theorem loaded_iff (h : Called s a b) (hapart : a + 152 ≤ b ∨ b + 152 ≤ a)
    (ha : a + 152 ≤ 2 ^ 64) (hb : b + 152 ≤ 2 ^ 64) :
    ((∀ p ∈ contextRegs, (s.switched.regs p.1).toNat = threadField s.mem b p.2) ∧
      s.switched.rip.toNat = threadField s.mem b .rip) ↔ FromFields s a b := by
  have hslot : ∀ d, d + 8 ≤ 152 →
      loadLE (saveContext s.regs a s.mem) ((b + d) % 2 ^ 64) 8 = loadLE s.mem (b + d) 8 :=
    fun d hd => load_slot hapart hb hd
  have hbase : loadLE s.mem (b + 88) 8 = threadField s.mem b .r15 := rfl
  rw [switched_eq h ha]
  simp only [contextRegs, List.forall_mem_cons, List.not_mem_nil, false_implies, implies_true,
    and_true, loadedRegs, loadLE_word, h.rsi]
  rw [hslot 0 (by decide), hslot 8 (by decide), hslot 16 (by decide), hslot 24 (by decide),
    hslot 32 (by decide), hslot 72 (by decide), hslot 88 (by decide), hbase]
  constructor
  · rintro ⟨⟨hrsp, hrbx, hrbp, hr12, hr13, hr14, hr15⟩, hrip⟩
    exact ⟨hrsp, hr15, hr14, hr13, hr12, hrbp, hrbx, hrip⟩
  · rintro ⟨hrsp, hr15, hr14, hr13, hr12, hrbp, hrbx, hrip⟩
    exact ⟨⟨hrsp, hrbx, hrbp, hr12, hr13, hr14, hr15⟩, hrip⟩

/-- **Going back to `a`**: all registers but `rbx` and `rip` come back, and these two are `rbx`
and `r9` of `b`. -/
theorem switched_back (h₁ : Called s₁ a b) (h₂ : Called s₂ b a)
    (hapart : a + 152 ≤ b ∨ b + 152 ≤ a) (ha : a + 152 ≤ 2 ^ 64) (hb : b + 152 ≤ 2 ^ 64)
    (hmem : ∀ x, a ≤ x → x < a + 152 → s₂.mem x = s₁.switched.mem x) :
    (∀ p ∈ contextRegs, p.1 ≠ .rbx → s₂.switched.regs p.1 = s₁.regs p.1) ∧
      s₂.switched.regs .rbx = s₂.regs .rbx ∧ s₂.switched.rip = s₂.regs .r9 := by
  have hslot : ∀ d r, (d, r) ∈ contextSlots →
      word (saveContext s₂.regs b s₂.mem) ((a + d) % 2 ^ 64) = s₁.regs r := by
    intro d r hd
    have hle := contextSlots_le _ hd
    have hsaved : loadLE s₂.mem (a + d) 8 = loadLE (saveContext s₁.regs a s₁.mem) (a + d) 8 := by
      apply loadLE_congr
      intro x hx
      rw [Set.mem_Ico] at hx
      rw [hmem x (by omega) (by simp only at hle; omega), switched_eq h₁ ha]
    have hslot := saveContext_slot s₁.regs a s₁.mem hd
    unfold word at hslot ⊢
    rw [load_slot hapart.symm ha (by simp only at hle; omega), hsaved, hslot]
  have hrsi : (s₁.regs .rsi).toNat = b := h₁.rsi
  have hown : ∀ d r, (d, r) ∈ contextSlots →
      word (saveContext s₂.regs b s₂.mem) ((b + d) % 2 ^ 64) = s₂.regs r := by
    intro d r hd
    have hle := contextSlots_le _ hd
    rw [Nat.mod_eq_of_lt (by simp only at hle; omega), saveContext_slot _ _ _ hd]
  rw [switched_eq h₂ hb]
  simp only [contextRegs, List.forall_mem_cons, List.not_mem_nil, false_implies, implies_true,
    and_true, loadedRegs, h₂.rsi]
  rw [hslot 0 .rsp (by decide), hslot 8 .r15 (by decide), hslot 16 .r14 (by decide),
    hslot 24 .r13 (by decide), hslot 32 .r12 (by decide), hslot 72 .rbp (by decide),
    hslot 88 .rsi (by decide), hrsi, hown 112 .rbx (by decide), hown 128 .r9 (by decide)]
  simp

/-- **Switching back and forth.** Two calls do what they are for exactly if the stack pointers
and the other registers that are stored over fields of the threads are what these fields are,
the words that are loaded for `b` are those in its fields, and at the second call `rbx` is what
it was at the first one and `r9` is the return address of that. -/
theorem switches_back_iff (h₁ : Called s₁ a b) (h₂ : Called s₂ b a)
    (hapart : a + 152 ≤ b ∨ b + 152 ≤ a) (ha : a + 152 ≤ 2 ^ 64) (hb : b + 152 ≤ 2 ^ 64)
    (hmem : ∀ x, a ≤ x → x < a + 152 → s₂.mem x = s₁.switched.mem x) :
    SwitchesBack a b s₁ s₂ ↔
      FromFields s₁ a b ∧ OverFields s₁ a ∧ OverFields s₂ b ∧ s₂.regs .rbx = s₁.regs .rbx ∧
        s₂.regs .r9 = word s₁.mem (s₁.regs .rsp).toNat := by
  obtain ⟨hback, hrbx, hrip⟩ := switched_back h₁ h₂ hapart ha hb hmem
  have hmem₁ : s₁.switched.mem = saveContext s₁.regs a s₁.mem := by rw [switched_eq h₁ ha]
  have hmem₂ : s₂.switched.mem = saveContext s₂.regs b s₂.mem := by rw [switched_eq h₂ hb]
  constructor
  · intro h
    refine ⟨(loaded_iff h₁ hapart ha hb).mp ⟨h.loaded, h.started⟩, ?_, ?_, ?_, ?_⟩
    · exact (kept_self s₁ a).mp (hmem₁ ▸ h.kept₁.1)
    · exact (kept_self s₂ b).mp (hmem₂ ▸ h.kept₂.2)
    · rw [← hrbx]
      exact h.restored (.rbx, .rbx) (by simp [contextRegs])
    · rw [← hrip]
      exact h.resumed
  · rintro ⟨hfrom, hover₁, hover₂, hbx, h9⟩
    obtain ⟨hloaded, hstarted⟩ := (loaded_iff h₁ hapart ha hb).mpr hfrom
    refine ⟨hloaded, hstarted, ?_, ?_, hrip.trans h9, ?_⟩
    · rw [hmem₁]
      exact ⟨(kept_self s₁ a).mpr hover₁, kept_other hapart⟩
    · intro p hp
      by_cases hne : p.1 = .rbx
      · rw [hne, hrbx, hbx]
      · exact hback p hp hne
    · rw [hmem₂]
      exact ⟨kept_other hapart.symm, (kept_self s₂ b).mpr hover₂⟩

/-- A processor with two arguments and a stack pointer. -/
def callingCpu (from_ to_ rsp : UInt64) (m : Mem) : Cpu where
  regs := fun
    | .rdi => from_
    | .rsi => to_
    | .rsp => rsp
    | _ => 0
  mem := m
  rip := 0

/-- Two calls with nothing but zeros around. -/
theorem switches_back_zeros : SwitchesBack 4096 8192 (callingCpu 4096 8192 0 fun _ => 0)
    (callingCpu 8192 4096 0 (callingCpu 4096 8192 0 fun _ => 0).switched.mem) := by
  have h₁ : Called (callingCpu 4096 8192 0 fun _ => 0) 4096 8192 := ⟨rfl, rfl⟩
  have h₂ : Called (callingCpu 8192 4096 0 (callingCpu 4096 8192 0 fun _ => 0).switched.mem)
      8192 4096 := ⟨rfl, rfl⟩
  rw [switches_back_iff h₁ h₂ (by decide) (by decide) (by decide) fun _ _ _ => rfl]
  refine ⟨?_, ?_, ?_, rfl, by decide +kernel⟩
  · constructor <;> decide +kernel
  · constructor <;> decide +kernel
  · constructor <;> decide +kernel

/-- The stack pointer is stored over the number of the thread. -/
theorem switch_breaks_tid : ¬ ∀ (a b : ℕ) (s₁ s₂ : Cpu), Called s₁ a b → Called s₂ b a →
    a + 152 ≤ b ∨ b + 152 ≤ a → a + 152 ≤ 2 ^ 64 → b + 152 ≤ 2 ^ 64 →
    (∀ x, a ≤ x → x < a + 152 → s₂.mem x = s₁.switched.mem x) → SwitchesBack a b s₁ s₂ := by
  intro h
  have hback := h 4096 8192 (callingCpu 4096 8192 16384 fun _ => 0)
    (callingCpu 8192 4096 0 (callingCpu 4096 8192 16384 fun _ => 0).switched.mem) ⟨rfl, rfl⟩
    ⟨rfl, rfl⟩ (by decide) (by decide) (by decide) fun _ _ _ => rfl
  have htid := hback.kept₁.1 .tid List.mem_cons_self
  revert htid
  decide +kernel

end PrismaticOS.Kernel
