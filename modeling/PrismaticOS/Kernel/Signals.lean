import PrismaticOS.Kernel.ProcessTable

/-!
# Signals

`process_send_signal` and `process_handle_signals` of `kernel/process.c`, for a process that has
installed no handler.

## The model

A run is a list of calls for one process. The loop of `process_handle_signals` takes the pending
signals one after the other, and each of them may change the state and the exit code of the
process, so `lives` has these two for every moment of a run: before each call and after each
turn of its loop.

A process that exits sends `SIGCHLD` to its parent, which may handle signals of its own. What it
has installed for them is code of that program; a run ends where it would be called.

## What is proved

* `turn_life` — what a turn of the loop does to the process.
* `stays_dead_iff` — a process that is dead stays dead, with its exit code, in a whole run
  exactly if every call meets `CallHarmless`: no signal that stops or ends the process is
  handled after one that has ended it.
* `stopped_for_good` — a process that was stopped is never continued and never killed by
  `process_send_signal`.
-/

namespace PrismaticOS.Kernel

open PrismaticOS.Library

/-! ### The life of a process -/

/-- The state and the exit code of a process. -/
@[ext] structure Life where
  /-- `proc->state`. -/
  state : ProcState
  /-- `proc->exit_code`. -/
  exitCode : ℤ
  deriving DecidableEq

/-- The state and the exit code of a process now. -/
def System.life (s : System) (proc : ℕ) : Life := ⟨(s.procs proc).state, (s.procs proc).exitCode⟩

/-- The state and the exit code of a process change. -/
def System.setLife (s : System) (proc : ℕ) (l : Life) : System :=
  s.setProc proc fun p => { p with state := l.state, exitCode := l.exitCode }

/-- The process is a zombie or terminated. -/
def Life.Dead (l : Life) : Prop := l.state = .zombie ∨ l.state = .terminated

instance (l : Life) : Decidable l.Dead := inferInstanceAs (Decidable (_ ∨ _))

/-- What is dead stays dead, and its exit code stays. -/
def StaysDead (l l' : Life) : Prop := l.Dead → l'.Dead ∧ l'.exitCode = l.exitCode

instance (l l' : Life) : Decidable (StaysDead l l') := inferInstanceAs (Decidable (_ → _))

/-- What a signal without a handler makes of a process. -/
def Life.after (l : Life) (signum : ℕ) : Life :=
  if signum = sigTerm ∨ signum = sigInt then ⟨.zombie, signum⟩
  else if signum = sigKill then ⟨.terminated, l.exitCode⟩
  else if signum = sigStop then ⟨.sleeping, l.exitCode⟩
  else if signum = sigCont ∧ l.state = .sleeping then ⟨.running, l.exitCode⟩
  else l

/-- The signal is among those in `pending_signals`. -/
def isPending (signals : BitVec 32) (signum : ℕ) : Bool := signals.getLsbD (signum - 1)

/-- There is no handler for any signal. -/
def DefaultHandlers (s : System) (proc : ℕ) : Prop := ∀ n, (s.procs proc).signalHandlers n = 0

/-! ### Runs -/

/-- A call for a process. -/
inductive SignalCall where
  /-- `process_send_signal(proc, signum)`. -/
  | send (signum : ℕ)
  /-- `process_handle_signals(proc)`. -/
  | handle

/-- A step of a run. -/
def signalStep (proc : ℕ) (s : System) : SignalCall → Option System
  | .send signum => processSendSignal s proc signum
  | .handle => processHandleSignals s proc

/-- A turn of the loop of `process_handle_signals`; the calls in it may take `fuel` turns and
nested calls. -/
def signalTurn (fuel : ℕ) (s : System) (proc : ℕ) : Option System :=
  let signum := firstSignal (s.procs proc).pendingSignals
  let s := s.setProc proc fun p =>
    { p with pendingSignals := p.pendingSignals &&& ~~~signalBit signum }
  if (s.procs proc).signalHandlers signum ≠ 0 then none
  else defaultAction (handleSignals fuel) s proc signum

/-- The loop of `process_handle_signals`, turn by turn: the system after each of them. -/
def turns : ℕ → System → ℕ → List System
  | 0, _, _ => []
  | fuel + 1, s, proc =>
    if proc = 0 ∨ (s.procs proc).pendingSignals = 0 then []
    else
      match signalTurn fuel s proc with
      | none => []
      | some s' => s' :: turns fuel s' proc

/-- `process_send_signal` up to where it may handle signals. -/
def posted (s : System) (proc signum : ℕ) : System :=
  if proc = 0 ∨ signum < 1 ∨ 31 < signum then s
  else s.setProc proc fun p => { p with pendingSignals := p.pendingSignals ||| signalBit signum }

/-- The signal is one, and the process is running: `process_send_signal` handles what is pending. -/
def Delivers (s : System) (proc signum : ℕ) : Prop :=
  ¬ (proc = 0 ∨ signum < 1 ∨ 31 < signum) ∧ (s.procs proc).state = .running

instance (s : System) (proc signum : ℕ) : Decidable (Delivers s proc signum) :=
  inferInstanceAs (Decidable (_ ∧ _))

/-- The systems that a call goes through. -/
def passed (proc : ℕ) (s : System) : SignalCall → List System
  | .send signum =>
    posted s proc signum ::
      if Delivers s proc signum then turns addresses (posted s proc signum) proc else []
  | .handle => turns addresses s proc

/-- The state and the exit code of the process in the course of a run. -/
def lives (proc : ℕ) : System → List SignalCall → List Life
  | s, [] => [s.life proc]
  | s, c :: calls =>
    s.life proc ::
      match signalStep proc s c with
      | none => []
      | some s' => (passed proc s c).map (·.life proc) ++ lives proc s' calls

/-! ### The condition -/

/-- Handling the pending signals of a process leaves it dead once it is dead. -/
structure HarmlessSignals (l : Life) (signals : BitVec 32) : Prop where
  /-- The process is dead already. -/
  dead : l.Dead → isPending signals sigStop = false ∧
    (isPending signals sigInt = true → l.exitCode = sigInt) ∧
      (isPending signals sigTerm = true → l.exitCode = sigTerm)
  /-- `SIGINT` ends it. -/
  int : isPending signals sigInt = true →
    isPending signals sigTerm = false ∧ isPending signals sigStop = false
  /-- `SIGKILL` does. -/
  kill : isPending signals sigKill = true →
    isPending signals sigStop = false ∧
      (isPending signals sigTerm = true → l.exitCode = sigTerm)
  /-- `SIGTERM` does. -/
  term : isPending signals sigTerm = true → isPending signals sigStop = false

/-- A call handles pending signals only if that is harmless. -/
def CallHarmless (proc : ℕ) (s : System) : SignalCall → Prop
  | .send signum =>
    Delivers s proc signum →
      HarmlessSignals (s.life proc) ((s.procs proc).pendingSignals ||| signalBit signum)
  | .handle => HarmlessSignals (s.life proc) (s.procs proc).pendingSignals

variable {s s' : System} {proc q signum : ℕ} {signals : BitVec 32} {l : Life}

/-! ### Pending signals -/

theorem isPending_clear (signals : BitVec 32) {n m : ℕ} (hn : 1 ≤ n) (hlt : n ≤ 32) (hm : 1 ≤ m) :
    isPending (signals &&& ~~~signalBit m) n = (isPending signals n && decide (n ≠ m)) := by
  unfold isPending signalBit
  rw [BitVec.getLsbD_and, BitVec.getLsbD_not, BitVec.getLsbD_shiftLeft, BitVec.getLsbD_one]
  congr 1
  rw [decide_eq_true (show n - 1 < 32 by omega), Bool.eq_iff_iff]
  simp only [Bool.true_and, Bool.not_eq_true', Bool.and_eq_false_iff, decide_eq_true_eq,
    decide_eq_false_iff_not, Bool.not_eq_false']
  omega

theorem isPending_post (signals : BitVec 32) {n m : ℕ} (hn : 1 ≤ n) (hlt : n ≤ 32) (hm : 1 ≤ m)
    (hne : n ≠ m) : isPending (signals ||| signalBit m) n = isPending signals n := by
  unfold isPending signalBit
  have hbit : (1#32 <<< (m - 1)).getLsbD (n - 1) = false := by
    rw [BitVec.getLsbD_shiftLeft, BitVec.getLsbD_one, decide_eq_true (show n - 1 < 32 by omega)]
    simp only [Bool.true_and, Bool.and_eq_false_iff, Bool.not_eq_false', decide_eq_true_eq,
      decide_eq_false_iff_not]
    omega
  rw [BitVec.getLsbD_or, hbit, Bool.or_false]

/-- The first pending signal is pending, and none before it is. -/
theorem firstSignal_spec (h : signals ≠ 0) :
    1 ≤ firstSignal signals ∧ isPending signals (firstSignal signals) = true ∧
      ∀ n, 1 ≤ n → n < firstSignal signals → isPending signals n = false := by
  refine ⟨Nat.succ_pos _, BitVec.getLsbD_true_ctz_of_ne_zero h, fun n hn hlt => ?_⟩
  apply BitVec.getLsbD_false_of_lt_ctz
  unfold firstSignal at hlt
  omega

/-- A signal that does not end or stop the process. -/
theorem after_other (l : Life) {m : ℕ} (hint : m ≠ sigInt) (hkill : m ≠ sigKill)
    (hterm : m ≠ sigTerm) (hstop : m ≠ sigStop) :
    ((l.after m).Dead ↔ l.Dead) ∧ (l.after m).exitCode = l.exitCode := by
  unfold Life.after
  rw [if_neg (by simp [hterm, hint]), if_neg hkill, if_neg hstop]
  split
  · rename_i hcont
    simp [Life.Dead, hcont.2]
  · exact ⟨Iff.rfl, rfl⟩

theorem harmlessSignals_def : HarmlessSignals l signals ↔
    (l.Dead → isPending signals sigStop = false ∧
      (isPending signals sigInt = true → l.exitCode = sigInt) ∧
        (isPending signals sigTerm = true → l.exitCode = sigTerm)) ∧
    (isPending signals sigInt = true →
      isPending signals sigTerm = false ∧ isPending signals sigStop = false) ∧
    (isPending signals sigKill = true → isPending signals sigStop = false ∧
      (isPending signals sigTerm = true → l.exitCode = sigTerm)) ∧
    (isPending signals sigTerm = true → isPending signals sigStop = false) :=
  ⟨fun h => ⟨h.dead, h.int, h.kill, h.term⟩, fun h => ⟨h.1, h.2.1, h.2.2.1, h.2.2.2⟩⟩

instance (l : Life) (signals : BitVec 32) : Decidable (HarmlessSignals l signals) :=
  decidable_of_iff' _ harmlessSignals_def

instance : ∀ proc s c, Decidable (CallHarmless proc s c)
  | _, _, .send _ => inferInstanceAs (Decidable (_ → _))
  | _, _, .handle => inferInstanceAs (Decidable (HarmlessSignals _ _))

/-- **The condition, signal by signal**: the first pending signal does no harm, and handling the
others after it does none. -/
theorem harmlessSignals_iff (l : Life) {rest : BitVec 32} (h : signals ≠ 0)
    (hrest : ∀ n ∈ [sigInt, sigKill, sigTerm, sigStop], isPending rest n =
      (isPending signals n && decide (n ≠ firstSignal signals))) :
    HarmlessSignals l signals ↔
      StaysDead l (l.after (firstSignal signals)) ∧ HarmlessSignals (l.after (firstSignal signals)) rest := by
  obtain ⟨-, hfirst, hbefore⟩ := firstSignal_spec h
  obtain ⟨m, hm⟩ : ∃ m, firstSignal signals = m := ⟨_, rfl⟩
  rw [hm] at hfirst hbefore hrest ⊢
  simp only [List.forall_mem_cons, List.not_mem_nil, false_implies, implies_true,
    and_true] at hrest
  obtain ⟨hint, hkill, hterm, hstop⟩ := hrest
  rw [harmlessSignals_def, harmlessSignals_def, hint, hkill, hterm, hstop]
  have hbeforeInt := hbefore sigInt (by decide)
  have hbeforeKill := hbefore sigKill (by decide)
  have hbeforeTerm := hbefore sigTerm (by decide)
  -- the four signals that matter, in the order in which they are handled, and all others
  by_cases hint : m = sigInt
  · subst hint
    rw [show l.after sigInt = ⟨.zombie, sigInt⟩ from rfl]
    simp [StaysDead, Life.Dead, sigInt, sigKill, sigTerm, sigStop] at *
    grind
  by_cases hkill : m = sigKill
  · subst hkill
    rw [show l.after sigKill = ⟨.terminated, l.exitCode⟩ from rfl]
    simp [StaysDead, Life.Dead, sigInt, sigKill, sigTerm, sigStop] at *
    grind
  by_cases hterm : m = sigTerm
  · subst hterm
    rw [show l.after sigTerm = ⟨.zombie, sigTerm⟩ from rfl]
    simp [StaysDead, Life.Dead, sigInt, sigKill, sigTerm, sigStop] at *
    grind
  by_cases hstop : m = sigStop
  · subst hstop
    rw [show l.after sigStop = ⟨.sleeping, l.exitCode⟩ from rfl]
    simp [StaysDead, Life.Dead, sigInt, sigKill, sigTerm, sigStop] at *
    grind
  obtain ⟨hdead, hcode⟩ := after_other l hint hkill hterm hstop
  rw [StaysDead, hdead, hcode]
  simp [Ne.symm hint, Ne.symm hkill, Ne.symm hterm, Ne.symm hstop]

/-! ### What a turn does -/

/-- The process is as it was, but for `SIGCHLD`, which its children may have sent. -/
structure Undisturbed (proc : ℕ) (s s' : System) : Prop where
  /-- The state and the exit code. -/
  life : s'.life proc = s.life proc
  /-- The handlers. -/
  handlers : (s'.procs proc).signalHandlers = (s.procs proc).signalHandlers
  /-- The signals that are pending. -/
  pending : ∀ n, 1 ≤ n → n ≤ 32 → n ≠ sigChld →
    isPending (s'.procs proc).pendingSignals n = isPending (s.procs proc).pendingSignals n

theorem Undisturbed.of_procs (h : s'.procs proc = s.procs proc) : Undisturbed proc s s' := by
  constructor
  · rw [System.life, h, System.life]
  · rw [h]
  · intro n _ _ _
    rw [h]

theorem Undisturbed.state (h : Undisturbed proc s s') : (s'.procs proc).state = (s.procs proc).state :=
  congrArg Life.state h.life

theorem Undisturbed.trans {s₁ s₂ s₃ : System} (h : Undisturbed proc s₁ s₂) (h' : Undisturbed proc s₂ s₃) :
    Undisturbed proc s₁ s₃ where
  life := h'.life.trans h.life
  handlers := h'.handlers.trans h.handlers
  pending n hn hlt hne := (h'.pending n hn hlt hne).trans (h.pending n hn hlt hne)

theorem undisturbed_setProc (hq : q ≠ proc) (f : Process → Process) : Undisturbed proc s (s.setProc q f) :=
  .of_procs (by rw [System.setProc_procs, Function.update_of_ne (Ne.symm hq)])

theorem undisturbed_schedule (h : schedulerSchedule s = some s') : Undisturbed proc s s' :=
  .of_procs (by rw [(schedulerSchedule_procs h).1])

theorem undisturbed_chld (q : ℕ) : Undisturbed proc s (s.setProc q fun p =>
    { p with pendingSignals := p.pendingSignals ||| signalBit sigChld }) := by
  by_cases hq : q = proc
  swap
  · exact undisturbed_setProc hq _
  subst hq
  constructor
  · rw [System.life, System.setProc_procs, Function.update_self, System.life]
  · rw [System.setProc_procs, Function.update_self]
  · intro n hn hlt hne
    rw [System.setProc_procs, Function.update_self]
    exact isPending_post _ hn hlt (by decide) hne

/-- A call of `process_handle_signals` for another process. -/
def KeepsIdle (proc : ℕ) (handle : System → ℕ → Option System) : Prop :=
  ∀ s s' q, q ≠ proc → (s.procs proc).state ≠ .running → handle s q = some s' → Undisturbed proc s s'

section

variable {handle : System → ℕ → Option System}

/-- `SIGCHLD` is sent to a process, which may be this one. -/
theorem KeepsIdle.chld (hh : KeepsIdle proc handle) (hidle : (s.procs proc).state ≠ .running)
    (h : sendSignalWith handle s q sigChld = some s') : Undisturbed proc s s' := by
  unfold sendSignalWith at h
  split at h
  · exact .of_procs (by rw [Option.some.inj h])
  dsimp only at h
  have hpost : Undisturbed proc s (s.setProc q fun p =>
      { p with pendingSignals := p.pendingSignals ||| signalBit sigChld }) := undisturbed_chld q
  have hstate : ((s.setProc q fun p =>
      { p with pendingSignals := p.pendingSignals ||| signalBit sigChld }).procs proc).state ≠
        .running := by
    rwa [hpost.state]
  split at h
  · rename_i hrunning
    have hq : q ≠ proc := by
      rintro rfl
      exact hstate hrunning
    exact hpost.trans (hh _ _ q hq hstate h)
  · exact Option.some.inj h ▸ hpost

/-- The process, or another one, has become a zombie: what is left of `process_exit`. -/
theorem KeepsIdle.exited (hh : KeepsIdle proc handle) (hidle : (s.procs proc).state ≠ .running)
    (h : ((if (s.procs q).parent ≠ 0 then sendSignalWith handle s (s.procs q).parent sigChld
      else some s).bind fun s => if q = s.currentProcess then schedulerSchedule s else some s) =
        some s') : Undisturbed proc s s' := by
  obtain ⟨t, hsent, h⟩ := Option.bind_eq_some_iff.mp h
  have ht : Undisturbed proc s t := by
    split at hsent
    · exact hh.chld hidle hsent
    · exact .of_procs (by rw [Option.some.inj hsent])
  split at h
  · exact ht.trans (undisturbed_schedule h)
  · exact Option.some.inj h ▸ ht

/-- A signal of another process. -/
theorem KeepsIdle.action (hh : KeepsIdle proc handle) (hidle : (s.procs proc).state ≠ .running)
    (hq : q ≠ proc) (hq₀ : q ≠ 0) (h : defaultAction handle s q signum = some s') :
    Undisturbed proc s s' := by
  have hother (f : Process → Process) : Undisturbed proc s (s.setProc q f) := undisturbed_setProc hq f
  unfold defaultAction at h
  split at h
  · unfold exitWith at h
    rw [if_neg hq₀] at h
    have hstate (f : Process → Process) : ((s.setProc q f).procs proc).state ≠ .running := by
      rwa [System.setProc_procs, Function.update_of_ne (Ne.symm hq)]
    exact (hother _).trans (hh.exited (hstate _) h)
  split at h
  · exact Option.some.inj h ▸ hother _
  split at h
  · exact Option.some.inj h ▸ hother _
  split at h
  · exact Option.some.inj h ▸ hother _
  · exact .of_procs (by rw [Option.some.inj h])

/-- A signal of the process itself. -/
theorem KeepsIdle.action_self (hh : KeepsIdle proc handle) (hproc : proc ≠ 0)
    (h : defaultAction handle s proc signum = some s') :
    Undisturbed proc (s.setLife proc ((s.life proc).after signum)) s' := by
  have hset {f : Process → Process} (hs : s.setProc proc f = s')
      (hf : (s.setProc proc f).procs = (s.setLife proc ((s.life proc).after signum)).procs) :
      Undisturbed proc (s.setLife proc ((s.life proc).after signum)) s' :=
    .of_procs (by rw [← hs, hf])
  unfold defaultAction at h
  split at h
  · rename_i hend
    rw [Life.after, if_pos hend]
    unfold exitWith at h
    rw [if_neg hproc] at h
    refine hh.exited ?_ h
    rw [System.setLife, System.setProc_procs, Function.update_self]
    nofun
  rename_i hend
  split at h
  · rename_i hkill
    refine hset (Option.some.inj h) ?_
    rw [Life.after, if_neg hend, if_pos hkill]
    rfl
  rename_i hkill
  split at h
  · rename_i hstop
    refine hset (Option.some.inj h) ?_
    rw [Life.after, if_neg hend, if_neg hkill, if_pos hstop]
    rfl
  rename_i hstop
  split at h
  · rename_i hcont
    have hsleeps : signum = sigCont ∧ (s.life proc).state = .sleeping := hcont
    refine hset (Option.some.inj h) ?_
    rw [Life.after, if_neg hend, if_neg hkill, if_neg hstop, if_pos hsleeps]
    rfl
  · rename_i hcont
    have hsleeps : ¬ (signum = sigCont ∧ (s.life proc).state = .sleeping) := hcont
    apply Undisturbed.of_procs
    rw [← Option.some.inj h, Life.after, if_neg hend, if_neg hkill, if_neg hstop, if_neg hsleeps,
      System.setLife, System.setProc_procs, Function.update_self]
    rfl

end

theorem handleSignals_succ (fuel : ℕ) (s : System) (proc : ℕ) :
    handleSignals (fuel + 1) s proc =
      if proc = 0 ∨ (s.procs proc).pendingSignals = 0 then some s
      else (signalTurn fuel s proc).bind (handleSignals fuel · proc) := by
  rw [handleSignals, signalTurn]
  dsimp only
  split
  · rfl
  split <;> rfl

/-- **A process that is not running** is left alone when another one handles its signals. -/
theorem handleSignals_idle (fuel : ℕ) : KeepsIdle proc (handleSignals fuel) := by
  induction fuel with
  | zero => exact fun _ _ _ _ _ h => nomatch h
  | succ fuel ih =>
    intro s s' q hq hidle h
    rw [handleSignals_succ] at h
    split at h
    · exact .of_procs (by rw [Option.some.inj h])
    rename_i hq₀
    obtain ⟨t, hturn, hrest⟩ := Option.bind_eq_some_iff.mp h
    have hclear := undisturbed_setProc (s := s) hq fun p =>
      { p with pendingSignals := p.pendingSignals &&&
          ~~~signalBit (firstSignal (s.procs q).pendingSignals) }
    have hstate {t : System} (hk : Undisturbed proc s t) : (t.procs proc).state ≠ .running := by
      rwa [hk.state]
    unfold signalTurn at hturn
    dsimp only at hturn
    split at hturn
    · cases hturn
    have ht := hclear.trans (ih.action (hstate hclear) hq (fun h₀ => hq₀ (.inl h₀)) hturn)
    exact ht.trans (ih t s' q hq (hstate ht) hrest)

/-- **A turn of the loop** does to the process what the first pending signal does. -/
theorem turn_life {fuel : ℕ} (hproc : proc ≠ 0) (hdefault : DefaultHandlers s proc)
    (hsome : (s.procs proc).pendingSignals ≠ 0) (h : signalTurn fuel s proc = some s') :
    s'.life proc = (s.life proc).after (firstSignal (s.procs proc).pendingSignals) ∧
      DefaultHandlers s' proc ∧
        ∀ n, 1 ≤ n → n ≤ 32 → n ≠ sigChld → isPending (s'.procs proc).pendingSignals n =
          (isPending (s.procs proc).pendingSignals n &&
            decide (n ≠ firstSignal (s.procs proc).pendingSignals)) := by
  obtain ⟨hfirst, -, -⟩ := firstSignal_spec hsome
  obtain ⟨m, hm⟩ : ∃ m, firstSignal (s.procs proc).pendingSignals = m := ⟨_, rfl⟩
  unfold signalTurn at h
  rw [hm] at h hfirst ⊢
  dsimp only at h
  split at h
  · cases h
  have hk := (handleSignals_idle fuel).action_self hproc h
  refine ⟨?_, fun n => ?_, fun n hn hlt hne => ?_⟩
  · have hlife := hk.life
    simp only [System.life, System.setLife, System.setProc_procs, Function.update_self] at hlife ⊢
    exact hlife
  · have hhandlers := congrFun hk.handlers n
    simp only [System.setLife, System.setProc_procs, Function.update_self] at hhandlers
    exact hhandlers.trans (hdefault n)
  · have hpending := hk.pending n hn hlt hne
    simp only [System.setLife, System.setProc_procs, Function.update_self] at hpending
    rw [hpending]
    exact isPending_clear _ hn hlt hfirst

/-! ### Dead processes -/

theorem staysDead_refl (l : Life) : StaysDead l l := fun h => ⟨h, rfl⟩

instance : Trans StaysDead StaysDead StaysDead where
  trans h h' hdead := ⟨(h' (h hdead).1).1, (h' (h hdead).1).2.trans (h hdead).2⟩

theorem harmlessSignals_zero (l : Life) : HarmlessSignals l 0 := by
  rw [harmlessSignals_def]
  simp [isPending]

/-- **The loop**: the process stays dead in it exactly if what was pending is harmless. -/
theorem turns_iff (fuel : ℕ) (hproc : proc ≠ 0) (hdefault : DefaultHandlers s proc)
    (h : handleSignals fuel s proc = some s') :
    ((s.life proc :: (turns fuel s proc).map (·.life proc)).IsChain StaysDead ↔
      HarmlessSignals (s.life proc) (s.procs proc).pendingSignals) ∧
      DefaultHandlers s' proc ∧ (s :: turns fuel s proc).getLast? = some s' := by
  induction fuel generalizing s with
  | zero => cases h
  | succ fuel ih =>
    rw [handleSignals_succ] at h
    rw [turns]
    by_cases hnone : (s.procs proc).pendingSignals = 0
    · rw [if_pos (.inr hnone)] at h ⊢
      obtain rfl := Option.some.inj h
      rw [hnone]
      exact ⟨iff_of_true (.singleton _) (harmlessSignals_zero _), hdefault, rfl⟩
    rw [if_neg (not_or.mpr ⟨hproc, hnone⟩)] at h ⊢
    obtain ⟨t, hturn, hrest⟩ := Option.bind_eq_some_iff.mp h
    obtain ⟨hlife, hdefault', hpending⟩ := turn_life hproc hdefault hnone hturn
    obtain ⟨hiff, hhandlers, hlast⟩ := ih hdefault' hrest
    rw [hturn]
    refine ⟨?_, hhandlers, by rw [List.getLast?_cons_cons]; exact hlast⟩
    rw [List.map_cons, List.isChain_cons_cons, hiff, hlife]
    refine (harmlessSignals_iff _ hnone fun n hn => hpending n ?_ ?_ ?_).symm
    all_goals revert n; decide

theorem posted_life (s : System) (proc signum : ℕ) :
    (posted s proc signum).life proc = s.life proc ∧
      ((posted s proc signum).procs proc).signalHandlers = (s.procs proc).signalHandlers := by
  unfold posted
  split
  · exact ⟨rfl, rfl⟩
  · rw [System.life, System.setProc_procs, Function.update_self]
    exact ⟨rfl, rfl⟩

/-- `process_send_signal` leaves the signal pending, unless the process is running. -/
theorem processSendSignal_eq (s : System) (proc signum : ℕ) :
    processSendSignal s proc signum =
      if Delivers s proc signum then processHandleSignals (posted s proc signum) proc
      else some (posted s proc signum) := by
  have hstate : ((posted s proc signum).procs proc).state = (s.procs proc).state :=
    congrArg Life.state (posted_life s proc signum).1
  unfold processSendSignal sendSignalWith Delivers posted at *
  split_ifs at * <;> simp_all

/-- **A call** leaves the process dead, if it is or becomes so, exactly if it is harmless. -/
theorem call_iff (hproc : proc ≠ 0) (hdefault : DefaultHandlers s proc) {c : SignalCall}
    (h : signalStep proc s c = some s') :
    ((s.life proc :: (passed proc s c).map (·.life proc)).IsChain StaysDead ↔
      CallHarmless proc s c) ∧
      DefaultHandlers s' proc ∧ (s :: passed proc s c).getLast? = some s' := by
  cases c with
  | handle => exact turns_iff addresses hproc hdefault h
  | send signum =>
    obtain ⟨hlife, hhandlers⟩ := posted_life s proc signum
    have hposted : DefaultHandlers (posted s proc signum) proc := fun n => by
      rw [hhandlers]
      exact hdefault n
    rw [signalStep, processSendSignal_eq] at h
    rw [passed, List.map_cons, List.isChain_cons_cons, hlife, List.getLast?_cons_cons]
    by_cases hdeliver : Delivers s proc signum
    · rw [if_pos hdeliver] at h ⊢
      obtain ⟨hiff, hdefault', hlast⟩ := turns_iff addresses hproc hposted h
      have hsignals : ((posted s proc signum).procs proc).pendingSignals =
          (s.procs proc).pendingSignals ||| signalBit signum := by
        rw [posted, if_neg hdeliver.1, System.setProc_procs, Function.update_self]
      rw [hlife, hsignals] at hiff
      rw [hiff]
      exact ⟨⟨fun hh _ => hh.2, fun hh => ⟨staysDead_refl _, hh hdeliver⟩⟩, hdefault', hlast⟩
    · rw [if_neg hdeliver] at h ⊢
      obtain rfl := Option.some.inj h
      exact ⟨iff_of_true ⟨staysDead_refl _, .singleton _⟩ fun hd => absurd hd hdeliver, hposted, rfl⟩

theorem lives_head (proc : ℕ) (s : System) (calls : List SignalCall) :
    (lives proc s calls).head? = some (s.life proc) := by
  cases calls <;> rfl

/-- **Dead processes stay dead**, with their exit codes, in a whole run exactly if every call of
it is harmless. -/
theorem stays_dead_iff (s : System) (proc : ℕ) (hproc : proc ≠ 0)
    (hdefault : DefaultHandlers s proc) (calls : List SignalCall) :
    (lives proc s calls).Pairwise StaysDead ↔
      Each (signalStep proc) (CallHarmless proc) s calls := by
  rw [← List.isChain_iff_pairwise]
  induction calls generalizing s with
  | nil => exact iff_of_true (.singleton _) trivial
  | cons c calls ih =>
    rw [lives, Each]
    cases hcall : signalStep proc s c with
    | none => exact iff_of_true (.singleton _) nofun
    | some s' =>
      obtain ⟨hiff, hdefault', hlast⟩ := call_iff hproc hdefault hcall
      have hend : (s.life proc :: (passed proc s c).map (·.life proc)).getLast? =
          some (s'.life proc) := by
        rw [← List.map_cons (f := (System.life · proc)), List.getLast?_map, hlast, Option.map_some]
      have hjoin : ∀ x ∈ (s.life proc :: (passed proc s c).map (·.life proc)).getLast?,
          ∀ y ∈ (lives proc s' calls).head?, StaysDead x y := by
        intro x hx y hy
        rw [hend, Option.mem_some_iff] at hx
        rw [lives_head, Option.mem_some_iff] at hy
        exact hx ▸ hy ▸ staysDead_refl _
      rw [← List.cons_append, List.isChain_append, hiff, ih s' hdefault']
      constructor
      · rintro ⟨hok, hrest, -⟩ t ht
        exact Option.some.inj ht ▸ ⟨hok, hrest⟩
      · intro hall
        exact ⟨(hall s' rfl).1, (hall s' rfl).2, hjoin⟩

/-- A process is stopped, and handles a signal that kills it. -/
theorem stays_dead_quiet : (lives 8 default [.send 19, .send 9, .handle]).Pairwise StaysDead := by
  rw [stays_dead_iff default 8 (by decide) fun _ => rfl]
  decide +kernel

/-- A process is killed, and stopped and continued after that. -/
theorem killed_runs_again : ¬ ∀ (s : System) (proc : ℕ), proc ≠ 0 → DefaultHandlers s proc →
    ∀ calls, (lives proc s calls).Pairwise StaysDead := by
  intro h
  have hlives := h default 8 (by decide) (fun _ => rfl) [.send 19, .send 9, .send 19, .handle]
  revert hlives
  decide +kernel

/-! ### Stopped processes -/

/-- `process_send_signal(proc, signum)`, as a step of a run. -/
def sendStep (proc : ℕ) (s : System) (signum : ℕ) : Option System := processSendSignal s proc signum

/-- A process starts running, is stopped by the last of some signals, and is sent others after
that, which are not to end or continue it. -/
structure StoppedRun (proc : ℕ) (before after : List ℕ) (s₀ s₁ s : System) : Prop where
  /-- It is a process. -/
  ne_zero : proc ≠ 0
  /-- It has no handlers. -/
  handlers : DefaultHandlers s₀ proc
  /-- It is running. -/
  running : (s₀.procs proc).state = .running
  /-- No signal is pending. -/
  pending : (s₀.procs proc).pendingSignals = 0
  /-- The signals up to the `SIGSTOP`. -/
  stop : run (sendStep proc) s₀ (before ++ [sigStop]) = some s₁
  /-- The process sleeps. -/
  sleeping : (s₁.procs proc).state = .sleeping
  /-- The signals after it. -/
  others : ∀ n ∈ after, n ∉ [sigInt, sigTerm, sigKill, sigCont]
  /-- The process is sent them. -/
  sent : run (sendStep proc) s₁ after = some s

/-- A `SIGCONT` leaves the process running, with nothing pending. -/
def Continues (proc : ℕ) (s : System) : Prop :=
  ∃ s', sendStep proc s sigCont = some s' ∧ (s'.procs proc).state = .running ∧
    (s'.procs proc).pendingSignals = 0

/-- A `SIGKILL` leaves the process terminated. -/
def Kills (proc : ℕ) (s : System) : Prop :=
  ∃ s', sendStep proc s sigKill = some s' ∧ (s'.procs proc).state = .terminated

/-- **A process that sleeps** goes on sleeping, whatever it is sent. -/
theorem send_sleeping (hsleep : (s.procs proc).state = .sleeping)
    (h : sendStep proc s signum = some s') : (s'.procs proc).state = .sleeping := by
  rw [sendStep, processSendSignal_eq, if_neg, Option.some.injEq] at h
  · rw [← h, ← hsleep]
    exact congrArg Life.state (posted_life s proc signum).1
  · rintro ⟨-, hrunning⟩
    rw [hsleep] at hrunning
    cases hrunning

/-- **Stopped for good**: after a `SIGSTOP` that leaves the process sleeping, neither does a
`SIGCONT` continue it nor a `SIGKILL` end it. -/
theorem stopped_for_good (proc : ℕ) (before after : List ℕ) (s₀ s₁ s : System)
    (h : StoppedRun proc before after s₀ s₁ s) : ¬ Continues proc s ∧ ¬ Kills proc s := by
  have hsleep : (s.procs proc).state = .sleeping :=
    (always_of_step (fun _ _ _ hs hstep => send_sleeping hs hstep) h.sleeping).of_run h.sent
  constructor
  · rintro ⟨s', hstep, hrunning, -⟩
    rw [send_sleeping hsleep hstep] at hrunning
    cases hrunning
  · rintro ⟨s', hstep, hterminated⟩
    rw [send_sleeping hsleep hstep] at hterminated
    cases hterminated

/-- A process that was stopped. -/
def stoppedSystem : System := (sendStep 8 default sigStop).get (by decide +kernel)

theorem stoppedSystem_eq : sendStep 8 default sigStop = some stoppedSystem :=
  (Option.some_get _).symm

theorem stoppedRun_nil : StoppedRun 8 [] [] default stoppedSystem stoppedSystem where
  ne_zero := by decide
  handlers _ := rfl
  running := rfl
  pending := rfl
  stop := by
    rw [List.nil_append, run, stoppedSystem_eq]
    rfl
  sleeping := by decide +kernel
  others _ h := absurd h List.not_mem_nil
  sent := rfl

/-- A process is stopped, and nothing else. -/
theorem stopped_for_good_nil : ¬ Continues 8 stoppedSystem ∧ ¬ Kills 8 stoppedSystem :=
  stopped_for_good 8 [] [] default stoppedSystem stoppedSystem stoppedRun_nil

/-- Neither signal has an effect on a process that was stopped. -/
theorem stopped_ignores : ¬ ∀ (proc : ℕ) (before after : List ℕ) (s₀ s₁ s : System),
    StoppedRun proc before after s₀ s₁ s → Continues proc s ∧ Kills proc s := by
  intro h
  obtain ⟨s', hstep, hrunning, -⟩ := (h 8 [] [] default _ _ stoppedRun_nil).1
  rw [send_sleeping stoppedRun_nil.sleeping hstep] at hrunning
  cases hrunning

end PrismaticOS.Kernel
