import PrismaticOS.Kernel.ProcessLinks
import PrismaticOS.Library.Runs

/-!
# The process table

Runs of `process_create`, `process_exit`, `process_waitpid` and `process_destroy` from
`process_init`, with any process current at any time.

A process has one pair of links, `next` and `prev`, for two lists. `process_create`
puts the new process in front of the list of all processes, and then, if there is a
current process, in front of its children: the second overwrites the link of the
first, and all other processes drop out of the first list.

## What is proved

* `procStep_inv` — as long as processes are created with no current process, the list
  has exactly the live processes.
* `table_iff` — the table is well formed in a whole run exactly if that is so, and no
  process gets the number of a live one.
* `list_cut` — a second process, created by the first, cuts it off.
-/

namespace PrismaticOS.Kernel

open PrismaticOS.Library

/-! ### Runs -/

/-- A step of a run. -/
inductive ProcCall where
  /-- `process_create()`; `kmalloc` returns `proc` and `mm_create_space` returns `space`. -/
  | create (proc space : ℕ)
  /-- `process_exit(proc, status)`. -/
  | exit (proc : ℕ) (status : ℤ)
  /-- `process_waitpid(pid, ..)`. -/
  | waitpid (pid : ℕ)
  /-- A caller of `process_waitpid` wakes up and looks at its child again. -/
  | wake (child : ℕ)
  /-- `process_destroy(proc)`. -/
  | destroy (proc : ℕ)
  /-- The scheduler makes a process, or none, the current one. -/
  | dispatch (proc : ℕ)

/-- The system, the live processes, and the children that callers of
`process_waitpid` sleep for. -/
structure ProcRun where
  /-- The system. -/
  sys : System
  /-- The processes created and not freed. -/
  live : List ℕ
  /-- The children slept for. -/
  asleep : List ℕ

/-- The effect of a turn of `process_waitpid` on what a run keeps. -/
def ProcRun.waited (r : ProcRun) (s : System) : Waited → ProcRun
  | .notFound => { r with sys := s }
  | .slept child => { r with sys := s, asleep := child :: r.asleep }
  | .reaped _ _ freed => { r with sys := s, live := r.live.filter (· ∉ freed) }

/-- There is no current process, or it is live. -/
def CurrentLive (r : ProcRun) : Prop := r.sys.currentProcess = 0 ∨ r.sys.currentProcess ∈ r.live

instance (r : ProcRun) : Decidable (CurrentLive r) := inferInstanceAs (Decidable (_ ∨ _))

/-- A step: `none` if it would use a process that is not live, or does not return. -/
def procStep (r : ProcRun) : ProcCall → Option ProcRun
  | .create proc space =>
    -- an allocation returns the address of memory that is not in use
    if proc ∉ r.live ∧ proc < addresses ∧ CurrentLive r then
      let (s, p) := processCreate r.sys proc space
      some { r with sys := s, live := if p = 0 then r.live else p :: r.live }
    else none
  | .exit proc status =>
    if proc ∈ r.live then (processExit r.sys proc status).map fun s => { r with sys := s } else none
  | .waitpid pid =>
    if CurrentLive r then (processWaitpid r.sys pid).map fun (s, w) => r.waited s w else none
  | .wake child =>
    if child ∈ r.asleep ∧ child ∈ r.live ∧ r.sys.currentProcess ∈ r.live then
      (waitTurn r.sys child).map fun (s, w) =>
        { r with asleep := r.asleep.erase child }.waited s w
    else none
  | .destroy proc =>
    if proc ∈ r.live then
      (processDestroy r.sys proc).map fun (s, freed) =>
        { r with sys := s, live := r.live.filter (· ∉ freed) }
    else none
  | .dispatch proc =>
    if proc = 0 ∨ proc ∈ r.live then
      some { r with sys := { r.sys with currentProcess := proc } }
    else none

/-- A run starts with the table `process_init` sets up. -/
def procRunInit (s : System) : ProcRun := ⟨processInit s, [], []⟩

/-- The table is well formed. -/
structure TableOk (r : ProcRun) : Prop where
  /-- The list of all processes is that of the live ones. -/
  list : ∃ procs, IsDList r.sys.procNext r.sys.procPrev r.sys.processList procs ∧
    ∀ p, p ∈ procs ↔ p ∈ r.live
  /-- The children of a process are the live processes whose parent it is. -/
  children : ∀ p ∈ r.live, ∃ cs, Seg r.sys.procNext (r.sys.procs p).children cs 0 ∧
    ∀ c, c ∈ cs ↔ c ∈ r.live ∧ (r.sys.procs c).parent = p
  /-- A live process is found by its number. -/
  find : ∀ p ∈ r.live, processFindByPid r.sys (r.sys.procs p).pid = some p

/-- The condition under which a call keeps the table well formed: a process that is
created is created with no current process, and gets a number that no live one has. -/
def ProcCallOk (r : ProcRun) : ProcCall → Prop
  | .create proc space =>
    proc = 0 ∨ space = 0 ∨
      r.sys.currentProcess = 0 ∧ ∀ p ∈ r.live, (r.sys.procs p).pid ≠ r.sys.nextPid
  | _ => True

instance : ∀ r a, Decidable (ProcCallOk r a)
  | _, .create .. => inferInstanceAs (Decidable (_ ∨ _))
  | _, .exit .. => inferInstanceAs (Decidable True)
  | _, .waitpid _ => inferInstanceAs (Decidable True)
  | _, .wake _ => inferInstanceAs (Decidable True)
  | _, .destroy _ => inferInstanceAs (Decidable True)
  | _, .dispatch _ => inferInstanceAs (Decidable True)

/-! ### Links and trees -/

variable {s s' : System} {p q : ℕ} {live : List ℕ}

namespace System

variable (s p) (f : Process → Process)

theorem setProc_procs : (s.setProc p f).procs = Function.update s.procs p (f (s.procs p)) := rfl

variable {f}

/-- A field that is not assigned stays. -/
theorem setProc_keep {β : Type} (field : Process → β) (hf : ∀ x, field (f x) = field x) (q : ℕ) :
    field ((s.setProc p f).procs q) = field (s.procs q) := by
  rw [setProc_procs]
  by_cases hq : q = p
  · rw [hq, Function.update_self, hf]
  · rw [Function.update_of_ne hq]

end System

/-- The processes have the same numbers, parents and children. -/
structure SameTree (s' s : System) : Prop where
  /-- The numbers. -/
  pid : ∀ q, (s'.procs q).pid = (s.procs q).pid
  /-- The parents. -/
  parent : ∀ q, (s'.procs q).parent = (s.procs q).parent
  /-- The children. -/
  children : ∀ q, (s'.procs q).children = (s.procs q).children
  /-- The next number. -/
  nextPid : s'.nextPid = s.nextPid
  /-- The current process. -/
  currentProcess : s'.currentProcess = s.currentProcess

theorem SameTree.refl (s : System) : SameTree s s :=
  ⟨fun _ => rfl, fun _ => rfl, fun _ => rfl, rfl, rfl⟩

theorem SameTree.trans {s₁ s₂ s₃ : System} (h : SameTree s₁ s₂) (h' : SameTree s₂ s₃) :
    SameTree s₁ s₃ :=
  ⟨fun q => (h.pid q).trans (h'.pid q), fun q => (h.parent q).trans (h'.parent q),
    fun q => (h.children q).trans (h'.children q), h.nextPid.trans h'.nextPid,
    h.currentProcess.trans h'.currentProcess⟩

theorem SameTree.ite {c : Prop} [Decidable c] {s₁ s₂ : System} (h₁ : SameTree s₁ s)
    (h₂ : SameTree s₂ s) : SameTree (if c then s₁ else s₂) s := by
  split
  · exact h₁
  · exact h₂

theorem sameTree_setProc {f : Process → Process} (h₁ : ∀ x, (f x).pid = x.pid)
    (h₂ : ∀ x, (f x).parent = x.parent) (h₃ : ∀ x, (f x).children = x.children) :
    SameTree (s.setProc p f) s :=
  ⟨s.setProc_keep p _ h₁, s.setProc_keep p _ h₂, s.setProc_keep p _ h₃, rfl, rfl⟩

theorem sameTree_setProcessList : SameTree (s.setProcessList p) s :=
  ⟨fun _ => rfl, fun _ => rfl, fun _ => rfl, rfl, rfl⟩

theorem sameTree_listProcess : SameTree (listProcess s p) s := by
  unfold listProcess
  refine SameTree.trans (sameTree_setProc ?_ ?_ ?_) (sameTree_setProcessList.trans
    (SameTree.trans (.ite (sameTree_setProc ?_ ?_ ?_) (.refl _)) (sameTree_setProc ?_ ?_ ?_)))
  all_goals exact fun _ => rfl

theorem sameTree_unlistProcess : SameTree (unlistProcess s p) s := by
  unfold unlistProcess
  refine SameTree.trans (.ite (sameTree_setProc ?_ ?_ ?_) (.refl _))
    (.ite (sameTree_setProc ?_ ?_ ?_) sameTree_setProcessList)
  all_goals exact fun _ => rfl

/-- The links of a list with a new process in front. -/
theorem listProcess_links (s : System) (p : ℕ) :
    (listProcess s p).processList = p ∧
      (listProcess s p).procNext = Function.update s.procNext p s.processList ∧
      (listProcess s p).procPrev = fun u =>
        if u = p then 0 else if s.processList ≠ 0 ∧ u = s.processList then p else s.procPrev u := by
  refine ⟨rfl, funext fun q => ?_, funext fun q => ?_⟩
  · rw [System.procNext, listProcess_procs, Function.update_apply]
    split <;> rfl
  · rw [System.procPrev, listProcess_procs]
    split <;> rfl

/-- The links of a list without one of its processes. -/
theorem unlistProcess_links (hp : s.procPrev p ≠ p) :
    (unlistProcess s p).processList = IsDList.unlinkHead s.procNext s.procPrev s.processList p ∧
      (unlistProcess s p).procNext = IsDList.unlinkNext s.procNext s.procPrev p ∧
      (unlistProcess s p).procPrev = IsDList.unlinkPrev s.procNext s.procPrev p := by
  refine ⟨?_, funext fun q => ?_, funext fun q => ?_⟩
  · rw [IsDList.unlinkHead]
    unfold unlistProcess
    dsimp only
    split <;> split <;> rfl
  · rw [System.procNext, unlistProcess_procs hp, IsDList.unlinkNext]
    by_cases hprev : s.procPrev p ≠ 0
    · simp only [hprev, not_false_eq_true, true_and, if_true, ne_eq, Function.update_apply]
      rfl
    · simp only [hprev, false_and, if_false]
      rfl
  · rw [System.procPrev, unlistProcess_procs hp, IsDList.unlinkPrev]
    by_cases hnext : s.procNext p ≠ 0
    · simp only [hnext, not_false_eq_true, true_and, if_true, ne_eq, Function.update_apply]
      rfl
    · simp only [hnext, false_and, if_false]
      rfl

/-! ### The search -/

/-- The search returns the first process with the number, or `NULL`. -/
theorem findPid_eq {procs : ℕ → Process} {pid : ℕ} {xs : List ℕ} :
    ∀ {steps head : ℕ}, Seg (fun p => (procs p).next) head xs 0 → xs.length < steps →
      findPid procs pid steps head =
        some ((xs.find? fun p => decide ((procs p).pid = pid)).getD 0) := by
  induction xs with
  | nil =>
    intro steps head h hlt
    obtain ⟨n, rfl⟩ := Nat.exists_eq_succ_of_ne_zero (Nat.ne_of_gt hlt)
    exact if_pos h
  | cons x xs ih =>
    intro steps head h hlt
    obtain ⟨n, rfl⟩ := Nat.exists_eq_succ_of_ne_zero (Nat.ne_of_gt (Nat.zero_lt_of_lt hlt))
    obtain ⟨rfl, h0, h⟩ := h
    unfold findPid
    rw [if_neg h0, List.find?_cons]
    by_cases hpid : (procs head).pid = pid
    · rw [if_pos hpid, decide_eq_true hpid]
      rfl
    · rw [if_neg hpid, decide_eq_false hpid]
      exact ih h (Nat.lt_of_succ_lt_succ hlt)

/-! ### The invariant -/

/-- The invariant of runs in which processes are created with no current process. -/
structure ProcInv (r : ProcRun) : Prop where
  /-- The list of all processes is that of the live ones. -/
  list : ∃ procs, IsDList r.sys.procNext r.sys.procPrev r.sys.processList procs ∧
    ∀ p, p ∈ procs ↔ p ∈ r.live
  /-- No process has a parent. -/
  parent : ∀ p ∈ r.live, (r.sys.procs p).parent = 0
  /-- No process has children. -/
  children : ∀ p ∈ r.live, (r.sys.procs p).children = 0
  /-- Processes are in memory. -/
  addr : ∀ p ∈ r.live, p < addresses
  /-- No two processes have one number. -/
  pidInj : ∀ p ∈ r.live, ∀ q ∈ r.live, (r.sys.procs p).pid = (r.sys.procs q).pid → p = q
  /-- Nobody sleeps. -/
  asleep : r.asleep = []

theorem ProcInv.ne_zero {r : ProcRun} (h : ProcInv r) (hp : p ∈ r.live) : p ≠ 0 := by
  obtain ⟨procs, hlist, hmem⟩ := h.list
  exact hlist.seg.ne_zero ((hmem p).mpr hp)

theorem ProcInv.tableOk {r : ProcRun} (h : ProcInv r) : TableOk r := by
  obtain ⟨procs, hlist, hmem⟩ := h.list
  refine ⟨⟨procs, hlist, hmem⟩, fun p hp => ?_, fun p hp => ?_⟩
  · refine ⟨[], h.children p hp, fun c => ⟨nofun, fun ⟨hc, hcp⟩ => ?_⟩⟩
    rw [h.parent c hc] at hcp
    exact absurd hcp.symm (h.ne_zero hp)
  · have hlen : procs.length < addresses :=
      hlist.seg.length_lt (fun x hx => h.addr x ((hmem x).mp hx)) addresses_pos
    unfold processFindByPid
    rw [findPid_eq hlist.seg hlen]
    cases hfind : procs.find? fun q => decide ((r.sys.procs q).pid = (r.sys.procs p).pid) with
    | none =>
      have hno := List.find?_eq_none.mp hfind p ((hmem p).mpr hp)
      simp only [decide_true, not_true_eq_false] at hno
    | some q =>
      have hq := List.mem_of_find?_eq_some hfind
      have hpid := List.find?_some hfind
      simp only [decide_eq_true_eq] at hpid
      rw [h.pidInj q ((hmem q).mp hq) p hp hpid]
      rfl

/-! ### What the calls do -/

/-- A state with the same links and the same trees. -/
theorem ProcInv.congr {r : ProcRun} (h : ProcInv r) (hn : s'.procNext = r.sys.procNext)
    (hp : s'.procPrev = r.sys.procPrev) (hl : s'.processList = r.sys.processList)
    (ht : ∀ q, (s'.procs q).pid = (r.sys.procs q).pid ∧
      (s'.procs q).parent = (r.sys.procs q).parent ∧
        (s'.procs q).children = (r.sys.procs q).children) :
    ProcInv { r with sys := s' } := by
  refine ⟨?_, fun q hq => ?_, fun q hq => ?_, h.addr, fun q hq u hu hpid => ?_, h.asleep⟩
  · rw [hn, hp, hl]
    exact h.list
  · rw [(ht q).2.1]
    exact h.parent q hq
  · rw [(ht q).2.2]
    exact h.children q hq
  · rw [(ht q).1, (ht u).1] at hpid
    exact h.pidInj q hq u hu hpid

/-- The scheduler does not touch the processes. -/
theorem schedulerSchedule_procs (hs : schedulerSchedule s = some s') :
    s'.procs = s.procs ∧ s'.processList = s.processList := by
  unfold schedulerSchedule at hs
  have hremove : ∀ t, (schedulerRemoveThread s t).procs = s.procs ∧
      (schedulerRemoveThread s t).processList = s.processList := by
    intro t
    unfold schedulerRemoveThread
    by_cases h0 : t = 0
    · rw [if_pos h0]
      exact ⟨rfl, rfl⟩
    rw [if_neg h0]
    dsimp only
    split <;> split <;> exact ⟨rfl, rfl⟩
  by_cases h0 : s.readyQueue = 0
  · simp only [if_pos h0, Option.some.injEq] at hs
    subst hs
    exact ⟨rfl, rfl⟩
  · simp only [if_neg h0] at hs
    obtain ⟨proc, -, rfl⟩ := Option.map_eq_some_iff.mp hs
    exact hremove _

theorem ProcInv.exit {r r' : ProcRun} {status : ℤ} (h : ProcInv r)
    (hs : procStep r (.exit p status) = some r') : ProcInv r' := by
  simp only [procStep] at hs
  by_cases hp : p ∈ r.live
  swap
  · rw [if_neg hp] at hs
    cases hs
  rw [if_pos hp] at hs
  obtain ⟨s, hexit, rfl⟩ := Option.map_eq_some_iff.mp hs
  unfold processExit exitWith at hexit
  rw [if_neg (h.ne_zero hp)] at hexit
  obtain ⟨f, hf⟩ : ∃ f : Process → Process,
      (fun x => { x with state := .zombie, exitCode := status }) = f := ⟨_, rfl⟩
  have hkeep : ∀ {β : Type} (field : Process → β), (∀ x, field (f x) = field x) →
      ∀ q, field ((r.sys.setProc p f).procs q) = field (r.sys.procs q) :=
    fun field hfield => r.sys.setProc_keep p field hfield
  have hparent : ((r.sys.setProc p f).procs p).parent = 0 := by
    rw [hkeep Process.parent fun x => by rw [← hf]]
    exact h.parent p hp
  have h' : ProcInv { r with sys := r.sys.setProc p f } := by
    refine h.congr (funext (hkeep Process.next ?_)) (funext (hkeep Process.prev ?_)) rfl
      fun q => ⟨hkeep Process.pid ?_ q, hkeep Process.parent ?_ q, hkeep Process.children ?_ q⟩
    all_goals exact fun x => by rw [← hf]
  simp only [hf, hparent, ne_eq, not_true_eq_false, if_false, Option.bind_some] at hexit
  split at hexit
  · obtain ⟨hprocs, hlist⟩ := schedulerSchedule_procs hexit
    refine h'.congr ?_ ?_ hlist fun q => by rw [hprocs]; exact ⟨rfl, rfl, rfl⟩
    · unfold System.procNext
      rw [hprocs]
    · unfold System.procPrev
      rw [hprocs]
  · rw [Option.some.injEq] at hexit
    subst hexit
    exact h'

theorem ProcInv.waitpid {r r' : ProcRun} {pid : ℕ} (h : ProcInv r)
    (hs : procStep r (.waitpid pid) = some r') : ProcInv r' := by
  simp only [procStep] at hs
  by_cases hc : CurrentLive r
  swap
  · rw [if_neg hc] at hs
    cases hs
  rw [if_pos hc] at hs
  obtain ⟨⟨s, w⟩, hwait, rfl⟩ := Option.map_eq_some_iff.mp hs
  -- the current process has no children
  have hnone : processWaitpid r.sys pid = some (r.sys, .notFound) := by
    unfold processWaitpid
    by_cases h0 : r.sys.currentProcess = 0
    · rw [if_pos h0]
    · have hpos := addresses_pos
      obtain ⟨n, hn⟩ := Nat.exists_eq_succ_of_ne_zero (Nat.ne_of_gt hpos)
      rw [if_neg h0, h.children _ (hc.resolve_left h0), hn]
      rfl
  rw [hnone, Option.some.injEq, Prod.mk.injEq] at hwait
  obtain ⟨rfl, rfl⟩ := hwait
  exact h

theorem ProcInv.destroy {r r' : ProcRun} (h : ProcInv r)
    (hs : procStep r (.destroy p) = some r') : ProcInv r' := by
  simp only [procStep] at hs
  by_cases hp : p ∈ r.live
  swap
  · rw [if_neg hp] at hs
    cases hs
  rw [if_pos hp] at hs
  obtain ⟨⟨s, freed⟩, hdestroy, rfl⟩ := Option.map_eq_some_iff.mp hs
  have htree := sameTree_unlistProcess (s := r.sys) (p := p)
  obtain ⟨n, hn⟩ := Nat.exists_eq_succ_of_ne_zero (Nat.ne_of_gt addresses_pos)
  -- without a parent and without children only `p` is freed
  have hone : processDestroy r.sys p = some (unlistProcess r.sys p, [p]) := by
    unfold processDestroy
    rw [hn, destroyWith, if_neg (h.ne_zero hp)]
    simp only [htree.parent, h.parent p hp, ne_eq, not_true_eq_false, if_false, htree.children,
      h.children p hp, hn, destroyChildren, if_true, Option.map_some, List.nil_append]
  rw [hone, Option.some.injEq, Prod.mk.injEq] at hdestroy
  obtain ⟨rfl, rfl⟩ := hdestroy
  have hlive : ∀ q, q ∈ r.live.filter (· ∉ [p]) ↔ q ∈ r.live ∧ q ≠ p := by
    intro q
    rw [List.mem_filter, decide_eq_true_eq, List.mem_singleton]
  have hsub : ∀ q ∈ r.live.filter (· ∉ [p]), q ∈ r.live := fun q hq => ((hlive q).mp hq).1
  obtain ⟨procs, hlist, hmem⟩ := h.list
  obtain ⟨l, t, rfl⟩ := List.append_of_mem ((hmem p).mpr hp)
  obtain ⟨hhead, hnext, hprev⟩ := unlistProcess_links (hlist.prev_ne ((hmem p).mpr hp))
  have hnd := hlist.nodup
  refine ⟨⟨l ++ t, ?_, fun q => ?_⟩, fun q hq => ?_, fun q hq => ?_, fun q hq => h.addr q (hsub q hq),
    fun q hq u hu hpid => ?_, h.asleep⟩
  · rw [hnext, hprev, hhead]
    exact hlist.unlink
  · rw [hlive, ← hmem, List.mem_append, List.mem_append, List.mem_cons]
    rw [List.nodup_append, List.nodup_cons] at hnd
    constructor
    · rintro (hq | hq)
      · exact ⟨.inl hq, fun he => hnd.2.2 q hq p List.mem_cons_self he⟩
      · exact ⟨.inr (.inr hq), fun he => hnd.2.1.1 (he ▸ hq)⟩
    · rintro ⟨hq | hq | hq, hne⟩
      · exact .inl hq
      · exact absurd hq hne
      · exact .inr hq
  · rw [htree.parent]
    exact h.parent q (hsub q hq)
  · rw [htree.children]
    exact h.children q (hsub q hq)
  · rw [htree.pid, htree.pid] at hpid
    exact h.pidInj q (hsub q hq) u (hsub u hu) hpid

/-- Writing memory that no live process has. -/
theorem ProcInv.fresh {r : ProcRun} (h : ProcInv r) (hp : p ∉ r.live) (n : ℕ) (f : Process → Process) :
    ProcInv { r with sys := { r.sys with nextPid := n }.setProc p f } := by
  have hkeep : ∀ q ∈ r.live, ({ r.sys with nextPid := n }.setProc p f).procs q = r.sys.procs q := by
    intro q hq
    rw [System.setProc_procs, Function.update_of_ne]
    rintro rfl
    exact hp hq
  obtain ⟨procs, hlist, hmem⟩ := h.list
  refine ⟨⟨procs, hlist.congr (fun q hq => ?_) fun q hq => ?_, hmem⟩, fun q hq => ?_, fun q hq => ?_,
    h.addr, fun q hq u hu hpid => ?_, h.asleep⟩
  · exact congrArg Process.next (hkeep q ((hmem q).mp hq))
  · exact congrArg Process.prev (hkeep q ((hmem q).mp hq))
  · rw [hkeep q hq]
    exact h.parent q hq
  · rw [hkeep q hq]
    exact h.children q hq
  · rw [hkeep q hq, hkeep u hu] at hpid
    exact h.pidInj q hq u hu hpid

/-- **A process is put on the list.** -/
theorem ProcInv.listed {r : ProcRun} (h : ProcInv r) (hp : p ∉ r.live) (h0 : p ≠ 0)
    (haddr : p < addresses) (hparent : (r.sys.procs p).parent = 0)
    (hchildren : (r.sys.procs p).children = 0)
    (hpid : ∀ q ∈ r.live, (r.sys.procs q).pid ≠ (r.sys.procs p).pid) :
    ProcInv { r with sys := listProcess r.sys p, live := p :: r.live } := by
  have htree := sameTree_listProcess (s := r.sys) (p := p)
  obtain ⟨hhead, hnext, hprev⟩ := listProcess_links r.sys p
  obtain ⟨procs, hlist, hmem⟩ := h.list
  have hpp : p ∉ procs := fun hm => hp ((hmem p).mp hm)
  have hne : ∀ u ∈ procs, u ≠ p := by
    rintro u hu rfl
    exact hpp hu
  have hcons : ∀ {P : ℕ → Prop}, P p → (∀ q ∈ r.live, P q) → ∀ q ∈ p :: r.live, P q := by
    intro P hP hall q hq
    rcases List.mem_cons.mp hq with rfl | hq
    · exact hP
    · exact hall q hq
  refine ⟨⟨p :: procs, ?_, fun q => ?_⟩, fun q hq => ?_, fun q hq => ?_, hcons haddr h.addr, ?_,
    h.asleep⟩
  · rw [hhead, hnext, hprev]
    refine hlist.push hpp h0 (Function.update_self ..)
      (fun u hu => Function.update_of_ne (hne u hu) ..) (if_pos rfl) fun u hu => ?_
    have hl : r.sys.processList ≠ 0 := by
      rw [Ne, ← hlist.seg.eq_nil_iff]
      rintro rfl
      cases hu
    simp only [hne u hu, if_false, hl, ne_eq, not_false_eq_true, true_and]
  · rw [List.mem_cons, List.mem_cons, hmem]
  · rw [htree.parent]
    exact hcons (P := fun q => (r.sys.procs q).parent = 0) hparent h.parent q hq
  · rw [htree.children]
    exact hcons (P := fun q => (r.sys.procs q).children = 0) hchildren h.children q hq
  · intro q hq u hu hqu
    rw [htree.pid, htree.pid] at hqu
    rcases List.mem_cons.mp hq with rfl | hq' <;> rcases List.mem_cons.mp hu with rfl | hu'
    · rfl
    · exact absurd hqu.symm (hpid u hu')
    · exact absurd hqu (hpid q hq')
    · exact h.pidInj q hq' u hu' hqu

/-- The process that `process_create` fills in. -/
def newProcess (s : System) (_ : Process) : Process :=
  { pid := s.nextPid, ppid := if s.currentProcess ≠ 0 then (s.procs s.currentProcess).pid else 0
    state := .running, exitCode := 0, pendingSignals := 0, signalHandlers := fun _ => 0
    parent := 0, children := 0, next := 0, prev := 0 }

/-- The state in which `process_create` has filled in the process. -/
def filledIn (s : System) (p : ℕ) : System :=
  { s with nextPid := wrap 32 (s.nextPid + 1) }.setProc p (newProcess s)

theorem filledIn_self (s : System) (p : ℕ) : (filledIn s p).procs p = newProcess s (s.procs p) := by
  unfold filledIn
  rw [System.setProc_procs, Function.update_self]

theorem filledIn_of_ne (h : q ≠ p) : (filledIn s p).procs q = s.procs q := by
  unfold filledIn
  rw [System.setProc_procs, Function.update_of_ne h]

/-- `process_create` fails, or lists the process, and makes it a child if there is a
current process. -/
theorem processCreate_eq (s : System) (p space : ℕ) :
    processCreate s p space =
      if p = 0 then (s, 0)
      else if space = 0 then (filledIn s p, 0)
      else if s.currentProcess ≠ 0 then
        (processAddChild (listProcess (filledIn s p) p) s.currentProcess p, p)
      else (listProcess (filledIn s p) p, p) := by
  have hcur : (listProcess (filledIn s p) p).currentProcess = s.currentProcess :=
    sameTree_listProcess.currentProcess
  unfold processCreate
  by_cases h0 : p = 0
  · rw [if_pos h0, if_pos h0]
  rw [if_neg h0, if_neg h0]
  change (if space = 0 then (filledIn s p, 0) else
    if (listProcess (filledIn s p) p).currentProcess ≠ 0 then
      (processAddChild (listProcess (filledIn s p) p)
        (listProcess (filledIn s p) p).currentProcess p, p)
    else (listProcess (filledIn s p) p, p)) = _
  rw [hcur]

/-- When a process is created, and what the run is then. -/
theorem procStep_create {r r' : ProcRun} {space : ℕ}
    (hs : procStep r (.create p space) = some r') :
    (p ∉ r.live ∧ p < addresses ∧ CurrentLive r) ∧
      r' = { r with
        sys := (processCreate r.sys p space).1
        live := if (processCreate r.sys p space).2 = 0 then r.live
          else (processCreate r.sys p space).2 :: r.live } := by
  simp only [procStep] at hs
  by_cases hp : p ∉ r.live ∧ p < addresses ∧ CurrentLive r
  · rw [if_pos hp, Option.some.injEq] at hs
    exact ⟨hp, hs.symm⟩
  · rw [if_neg hp] at hs
    cases hs

/-- When a process becomes the current one, and what the run is then. -/
theorem procStep_dispatch {r r' : ProcRun} (hs : procStep r (.dispatch p) = some r') :
    (p = 0 ∨ p ∈ r.live) ∧ r' = { r with sys := { r.sys with currentProcess := p } } := by
  simp only [procStep] at hs
  by_cases hp : p = 0 ∨ p ∈ r.live
  · rw [if_pos hp, Option.some.injEq] at hs
    exact ⟨hp, hs.symm⟩
  · rw [if_neg hp] at hs
    cases hs

theorem ProcInv.create {r r' : ProcRun} {space : ℕ} (h : ProcInv r)
    (hok : ProcCallOk r (.create p space)) (hs : procStep r (.create p space) = some r') :
    ProcInv r' := by
  obtain ⟨⟨hp, haddr, -⟩, rfl⟩ := procStep_create hs
  rw [processCreate_eq]
  have hfresh : ProcInv { r with sys := filledIn r.sys p } := h.fresh hp _ _
  by_cases h0 : p = 0
  · simp only [if_pos h0, if_true]
    exact h
  by_cases hspace : space = 0
  · simp only [if_neg h0, if_pos hspace, if_true]
    exact hfresh
  obtain ⟨hcur, hpid⟩ := (hok.resolve_left h0).resolve_left hspace
  simp only [if_neg h0, if_neg hspace, hcur, ne_eq, not_true_eq_false, if_false]
  refine ProcInv.listed hfresh hp h0 haddr ?_ ?_ fun q hq => ?_
  · rw [filledIn_self]
    rfl
  · rw [filledIn_self]
    rfl
  · have hqp : q ≠ p := by
      rintro rfl
      exact hp hq
    rw [filledIn_self, filledIn_of_ne hqp]
    exact hpid q hq

/-- A process that is created while another is current, or with the number of a live
one, breaks the table. -/
theorem create_breaks {r r' : ProcRun} {space : ℕ} (h : ProcInv r)
    (hok : ¬ ProcCallOk r (.create p space)) (hs : procStep r (.create p space) = some r') :
    ¬ TableOk r' := by
  obtain ⟨⟨hp, -, hlive⟩, rfl⟩ := procStep_create hs
  simp only [ProcCallOk, not_or, not_and] at hok
  obtain ⟨h0, hspace, hpid⟩ := hok
  rw [processCreate_eq]
  simp only [if_neg h0, if_neg hspace]
  intro htable
  have htree := sameTree_listProcess (s := filledIn r.sys p) (p := p)
  by_cases hcur : r.sys.currentProcess = 0
  · -- the walk for the number stops at the new process
    simp only [hcur, ne_eq, not_true_eq_false, if_false, if_neg h0] at htable
    have hdup := hpid hcur
    simp only [not_forall, not_not] at hdup
    obtain ⟨q, hq, hqpid⟩ := hdup
    have hqp : q ≠ p := by
      rintro rfl
      exact hp hq
    have hfind := htable.find q (List.mem_cons_of_mem p hq)
    obtain ⟨n, hn⟩ := Nat.exists_eq_succ_of_ne_zero (Nat.ne_of_gt addresses_pos)
    unfold processFindByPid at hfind
    simp only [(listProcess_links (filledIn r.sys p) p).1, hn] at hfind
    rw [findPid, if_neg h0, if_pos, Option.some.injEq] at hfind
    · exact hqp hfind.symm
    · rw [htree.pid, htree.pid, filledIn_self, filledIn_of_ne hqp]
      exact hqpid.symm
  · -- the list from the new process ends after it
    simp only [ne_eq, hcur, not_false_eq_true, if_true, if_neg h0] at htable
    have hmem := hlive.resolve_left hcur
    have hcp : r.sys.currentProcess ≠ p := fun he => hp (he ▸ hmem)
    obtain ⟨⟨procs, hlist, hprocs⟩, -, -⟩ := htable
    have hnone : ((listProcess (filledIn r.sys p) p).procs r.sys.currentProcess).children = 0 := by
      rw [htree.children, filledIn_of_ne hcp]
      exact h.children _ hmem
    have hnext : (processAddChild (listProcess (filledIn r.sys p) p) r.sys.currentProcess p).procNext
        p = 0 := by
      rw [System.procNext, processAddChild_procs _ hcp, if_pos rfl]
      exact hnone
    have hhead : (processAddChild (listProcess (filledIn r.sys p) p) r.sys.currentProcess p).processList
        = p :=
      (processAddChild_frame ..).1.trans (listProcess_links (filledIn r.sys p) p).1
    have honly : procs = [p] := hlist.seg.unique (by rw [hhead]; exact ⟨rfl, h0, hnext⟩)
    have hin := (hprocs _).mpr (List.mem_cons_of_mem p hmem)
    rw [honly, List.mem_singleton] at hin
    exact hcp hin

/-! ### The table in whole runs -/

/-- A step that meets its condition keeps the invariant. -/
theorem procStep_inv {r r' : ProcRun} {a : ProcCall} (h : ProcInv r) (hok : ProcCallOk r a)
    (hs : procStep r a = some r') : ProcInv r' := by
  cases a with
  | create => exact h.create hok hs
  | exit => exact h.exit hs
  | waitpid => exact h.waitpid hs
  | destroy => exact h.destroy hs
  | wake child =>
    simp only [procStep] at hs
    rw [if_neg] at hs
    · cases hs
    · rw [h.asleep]
      exact fun hw => absurd hw.1 List.not_mem_nil
  | dispatch proc =>
    obtain ⟨-, rfl⟩ := procStep_dispatch hs
    exact h.congr rfl rfl rfl fun _ => ⟨rfl, rfl, rfl⟩

theorem procRunInit_inv (s : System) : ProcInv (procRunInit s) :=
  ⟨⟨[], IsDList.nil, fun _ => Iff.rfl⟩, nofun, nofun, nofun, nofun, rfl⟩

/-- **The table is well formed** in every state of a run exactly if every process is
created with no current process and a number of its own. -/
theorem table_iff (s : System) (calls : List ProcCall) :
    Always procStep TableOk (procRunInit s) calls ↔ Each procStep ProcCallOk (procRunInit s) calls :=
  always_iff_each (fun _ => ProcInv.tableOk) (fun _ _ _ h hok hs => procStep_inv h hok hs)
    (fun _ a _ h hok hs => by
      cases a with
      | create => exact create_breaks h hok hs
      | _ => exact absurd trivial hok)
    (procRunInit_inv s)

/-- A process creates another one: the first is on no list of processes any more. -/
theorem list_cut : ¬ ∀ s calls, Always procStep TableOk (procRunInit s) calls := by
  intro h
  have hall := h default [.create 8 1, .dispatch 8, .create 16 1]
  have hend : (run procStep (procRunInit default) [.create 8 1, .dispatch 8, .create 16 1]).map
      (fun r => (r.live, r.sys.processList, r.sys.procNext 16)) = some ([16, 8], 16, 0) := by
    decide +kernel
  obtain ⟨r, hr, hvals⟩ := Option.map_eq_some_iff.mp hend
  obtain ⟨hlive, hvals⟩ := Prod.ext_iff.mp hvals
  obtain ⟨hhead, hnext⟩ := Prod.ext_iff.mp hvals
  simp only at hlive hhead hnext
  obtain ⟨procs, hlist, hmem⟩ := (hall.of_run hr).list
  have honly : procs = [16] :=
    hlist.seg.unique (by rw [hhead]; exact ⟨rfl, by decide, hnext⟩)
  have hin := (hmem 8).mpr (by rw [hlive]; decide)
  rw [honly] at hin
  exact absurd hin (by decide)

end PrismaticOS.Kernel
