import Mathlib.Data.List.Find
import PrismaticOS.Kernel.ProcessTable

/-!
# Forking

`process_fork` of `kernel/process.c`, where the child was created and there is no memory for its
thread: the child is destroyed again.

`process_create` puts the child in front of the list of all processes, and then, with the same
link, in front of the children of its parent. `process_destroy` takes it off the list of all
processes by that link, so the list starts with the other children of the parent after that.

## What is proved

* `BuiltTable` — what holds of the tables that `process_create` builds: a link leads to an older
  process.
* `fork_failed` — what a fork that fails leaves.
* `fork_restores_iff` — it is what was there before exactly if the process created last is the
  last child of the current one.
-/

namespace PrismaticOS.Kernel

open PrismaticOS.Library

/-- `process_fork()`: `kmalloc` returns `proc` for the process, `thread` for its thread and
`stackBase` for the stack of that, and `mm_create_space` returns `space`. The registers of the
thread are left out. -/
def processFork (s : System) (proc space thread stackBase : ℕ) : Option (System × ℤ) :=
  if s.currentProcess = 0 then some (s, -1)
  else
    let (s, child) := processCreate s proc space
    if child = 0 then some (s, -1)
    else
      let handlers := (s.procs s.currentProcess).signalHandlers
      let s := s.setProc child fun p =>
        { p with signalHandlers := fun i => if i < 32 then handlers i else p.signalHandlers i }
      let (s, childThread) := threadCreate s child thread stackBase
      if childThread = 0 then (processDestroy s child).map fun (s, _) => (s, -1)
      else some (schedulerAddThread s childThread, toSigned 32 (s.procs child).pid)

/-! ### Tables -/

/-- A call that builds a table: a process is created, or made the current one. -/
def ProcCall.Builds : ProcCall → Prop
  | .create .. => True
  | .dispatch _ => True
  | _ => False

/-- The links of the processes, the last one created first, lead to older ones. -/
def LinksBack (next : ℕ → ℕ) : List ℕ → Prop
  | [] => True
  | p :: older => p ≠ 0 ∧ (next p = 0 ∨ next p ∈ older) ∧ LinksBack next older

/-- A table that was built. -/
structure BuiltTable (r : ProcRun) : Prop where
  /-- The current process is live. -/
  current : CurrentLive r
  /-- Processes are in memory. -/
  addr : ∀ p ∈ r.live, p < addresses
  /-- The links. -/
  links : LinksBack r.sys.procNext r.live
  /-- The first process. -/
  head : r.sys.processList = 0 ∨ r.sys.processList ∈ r.live
  /-- The first children. -/
  children : ∀ p ∈ r.live, (r.sys.procs p).children = 0 ∨ (r.sys.procs p).children ∈ r.live

/-- The table is what it was: the list of all processes, the lists of children, and what the
search for a number finds. -/
structure TableRestored (live : List ℕ) (s s' : System) : Prop where
  /-- The list of all processes. -/
  list : ∀ procs, Seg s'.procNext s'.processList procs 0 ↔ Seg s.procNext s.processList procs 0
  /-- The children. -/
  children : ∀ p ∈ live, ∀ cs, Seg s'.procNext (s'.procs p).children cs 0 ↔
    Seg s.procNext (s.procs p).children cs 0
  /-- The search. -/
  find : ∀ pid, processFindByPid s' pid = processFindByPid s pid

variable {s s' : System} {r r' : ProcRun} {p q : ℕ} {live : List ℕ}

theorem LinksBack.congr {next next' : ℕ → ℕ} (h : LinksBack next live)
    (hsame : ∀ p ∈ live, next' p = next p) : LinksBack next' live := by
  induction live with
  | nil => trivial
  | cons p older ih =>
    obtain ⟨hp, hnext, hrest⟩ := h
    refine ⟨hp, ?_, ih hrest fun q hq => hsame q (List.mem_cons_of_mem p hq)⟩
    rw [hsame p List.mem_cons_self]
    exact hnext

/-- From every process a list leads through older ones. -/
theorem LinksBack.seg {next : ℕ → ℕ} (h : LinksBack next live) (hp : p = 0 ∨ p ∈ live) :
    ∃ procs, Seg next p procs 0 ∧ ∀ q ∈ procs, q ∈ live := by
  induction live generalizing p with
  | nil => exact ⟨[], hp.resolve_right List.not_mem_nil, nofun⟩
  | cons x older ih =>
    obtain ⟨hx, hnext, hrest⟩ := h
    have holder : ∀ {p}, p = 0 ∨ p ∈ older →
        ∃ procs, Seg next p procs 0 ∧ ∀ q ∈ procs, q ∈ x :: older := by
      intro p hp
      obtain ⟨procs, hseg, hmem⟩ := ih hrest hp
      exact ⟨procs, hseg, fun q hq => List.mem_cons_of_mem x (hmem q hq)⟩
    rcases hp with rfl | hp
    · exact holder (.inl rfl)
    rcases List.mem_cons.mp hp with rfl | hp
    · obtain ⟨procs, hseg, hmem⟩ := holder hnext
      refine ⟨p :: procs, ⟨rfl, hx, hseg⟩, fun q hq => ?_⟩
      rcases List.mem_cons.mp hq with rfl | hq
      · exact List.mem_cons_self
      · exact hmem q hq
    · exact holder (.inr hp)

/-- The lists depend on the links of these processes only. -/
theorem LinksBack.seg_iff {next next' : ℕ → ℕ} (h : LinksBack next live)
    (hsame : ∀ q ∈ live, next' q = next q) (hp : p = 0 ∨ p ∈ live) {procs : List ℕ} :
    Seg next' p procs 0 ↔ Seg next p procs 0 := by
  obtain ⟨procs', hseg, hmem⟩ := h.seg hp
  have hseg' := hseg.congr fun q hq => hsame q (hmem q hq)
  constructor
  · intro h'
    exact h'.unique hseg' ▸ hseg
  · intro h'
    exact h'.unique hseg ▸ hseg'

/-! ### Creation -/

/-- What `process_create` leaves: the new process leads to the children that the current process
had, or to the list of all processes where there is none. -/
structure Created (s s' : System) (p : ℕ) : Prop where
  /-- It is the first process. -/
  head : s'.processList = p
  /-- Its link. -/
  next : s'.procNext p =
    if s.currentProcess ≠ 0 then (s.procs s.currentProcess).children else s.processList
  /-- It has no predecessor. -/
  prev : s'.procPrev p = 0
  /-- Its parent is the current process. -/
  parent : (s'.procs p).parent = s.currentProcess
  /-- It has no children. -/
  childless : (s'.procs p).children = 0
  /-- The links of the others. -/
  nextOld : ∀ q, q ≠ p → s'.procNext q = s.procNext q
  /-- The numbers of the others. -/
  pidOld : ∀ q, q ≠ p → (s'.procs q).pid = (s.procs q).pid
  /-- The children of the others. -/
  childrenOld : ∀ q, q ≠ p → (s'.procs q).children =
    if s.currentProcess ≠ 0 ∧ q = s.currentProcess then p else (s.procs q).children
  /-- The current process stays. -/
  current : s'.currentProcess = s.currentProcess

theorem processCreate_created {space : ℕ} (hp : p ≠ 0) (hspace : space ≠ 0)
    (hcur : s.currentProcess ≠ p) :
    (processCreate s p space).2 = p ∧ Created s (processCreate s p space).1 p := by
  have htree := sameTree_listProcess (s := filledIn s p) (p := p)
  have hhead := (listProcess_links (filledIn s p) p).1
  rw [processCreate_eq, if_neg hp, if_neg hspace]
  by_cases h₀ : s.currentProcess = 0
  · rw [if_neg (not_not.mpr h₀)]
    refine ⟨rfl, hhead, ?_, ?_, ?_, ?_, fun q hq => ?_, fun q hq => ?_, fun q hq => ?_,
      htree.currentProcess⟩
    all_goals
      simp only [System.procNext, System.procPrev, listProcess_procs, h₀, ne_eq, not_true_eq_false,
        if_false, if_true, false_and]
    · rfl
    · rw [filledIn_self]
      rfl
    · rw [filledIn_self]
      rfl
    all_goals rw [if_neg hq, filledIn_of_ne hq]
  · obtain ⟨hlist, hcurrent⟩ :=
      processAddChild_frame (listProcess (filledIn s p) p) s.currentProcess p
    rw [if_pos h₀]
    refine ⟨rfl, hlist.trans hhead, ?_, ?_, ?_, ?_, fun q hq => ?_, fun q hq => ?_, fun q hq => ?_,
      hcurrent.trans htree.currentProcess⟩
    all_goals
      simp only [System.procNext, System.procPrev, processAddChild_procs _ hcur, ne_eq, h₀,
        not_false_eq_true, if_true, true_and]
    · rw [htree.children, filledIn_of_ne hcur]
    · rw [htree.children, filledIn_self]
      rfl
    · rw [if_neg hq, listProcess_procs, if_neg hq, filledIn_of_ne hq]
    · rw [if_neg hq, listProcess_procs, if_neg hq, filledIn_of_ne hq]
    · rw [if_neg hq, listProcess_procs, if_neg hq, filledIn_of_ne hq]

/-! ### Tables that were built -/

theorem builtTable_init (s : System) : BuiltTable (procRunInit s) :=
  ⟨.inl rfl, nofun, trivial, .inl rfl, nofun⟩

/-- A process that is created leads to older ones. -/
theorem BuiltTable.add (h : BuiltTable r) (hnew : p ∉ r.live) (haddr : p < addresses) (hp : p ≠ 0)
    (hc : Created r.sys s' p) : BuiltTable { r with sys := s', live := p :: r.live } := by
  have hne : ∀ q ∈ r.live, q ≠ p := by
    rintro q hq rfl
    exact hnew hq
  refine ⟨?_, ?_, ⟨hp, ?_, ?_⟩, .inr ?_, fun q hq => ?_⟩
  · rcases h.current with hcur | hcur
    · exact .inl (hc.current.trans hcur)
    · exact .inr (hc.current ▸ List.mem_cons_of_mem p hcur)
  · intro q hq
    rcases List.mem_cons.mp hq with rfl | hq
    · exact haddr
    · exact h.addr q hq
  · rw [hc.next]
    split
    · rename_i hsome
      exact h.children _ (h.current.resolve_left hsome)
    · exact h.head
  · exact h.links.congr fun q hq => hc.nextOld q (hne q hq)
  · rw [hc.head]
    exact List.mem_cons_self
  · rcases List.mem_cons.mp hq with rfl | hq
    · exact .inl hc.childless
    rw [hc.childrenOld q (hne q hq)]
    split
    · exact .inr List.mem_cons_self
    · rcases h.children q hq with hnone | hsome
      · exact .inl hnone
      · exact .inr (List.mem_cons_of_mem p hsome)

/-- A process that is created, or not, leaves a table that was built. -/
theorem BuiltTable.create {space : ℕ} (h : BuiltTable r)
    (hs : procStep r (.create p space) = some r') : BuiltTable r' := by
  obtain ⟨⟨hp, haddr, hcur⟩, rfl⟩ := procStep_create hs
  have hne : ∀ q ∈ r.live, q ≠ p := by
    rintro q hq rfl
    exact hp hq
  by_cases h₀ : p = 0
  · rw [processCreate_eq, if_pos h₀]
    exact h
  by_cases hspace : space = 0
  · -- the memory that was filled in is none of a live process
    rw [processCreate_eq, if_neg h₀, if_pos hspace]
    refine ⟨hcur, h.addr, h.links.congr fun q hq => ?_, h.head, fun q hq => ?_⟩
    · exact congrArg Process.next (filledIn_of_ne (hne q hq))
    · simp only [filledIn_of_ne (hne q hq)]
      exact h.children q hq
  have hcp : r.sys.currentProcess ≠ p := by
    rcases hcur with hcur | hcur
    · exact hcur ▸ Ne.symm h₀
    · exact hne _ hcur
  obtain ⟨hret, hc⟩ := processCreate_created h₀ hspace hcp
  rw [hret, if_neg h₀]
  exact h.add hp haddr h₀ hc

theorem BuiltTable.dispatch (h : BuiltTable r) (hs : procStep r (.dispatch p) = some r') :
    BuiltTable r' := by
  obtain ⟨hp, rfl⟩ := procStep_dispatch hs
  exact ⟨hp, h.addr, h.links, h.head, h.children⟩

/-- A run that builds a table. -/
theorem builtTable_run {calls : List ProcCall} (hbuilds : ∀ c ∈ calls, c.Builds)
    (h : BuiltTable r) (hrun : run procStep r calls = some r') : BuiltTable r' := by
  induction calls generalizing r with
  | nil => exact Option.some.inj hrun ▸ h
  | cons c calls ih =>
    obtain ⟨t, hstep, hrest⟩ := Option.bind_eq_some_iff.mp hrun
    refine ih (fun c' hc' => hbuilds c' (List.mem_cons_of_mem c hc')) ?_ hrest
    have hc := hbuilds c List.mem_cons_self
    cases c with
    | create => exact h.create hstep
    | dispatch => exact h.dispatch hstep
    | exit => exact hc.elim
    | waitpid => exact hc.elim
    | wake => exact hc.elim
    | destroy => exact hc.elim

/-! ### The fork -/

/-- Destroying the first process, which is the first child of its parent and has no children. -/
theorem processDestroy_first (hp : p ≠ 0) (hprev : s.procPrev p = 0)
    (hparent : (s.procs p).parent ≠ 0) (hchildless : (s.procs p).children = 0)
    (hne : (s.procs p).parent ≠ p) :
    ∃ s', processDestroy s p = some (s', [p]) ∧ s'.processList = s.procNext p ∧
      ∀ q, s'.procNext q = s.procNext q ∧ (s'.procs q).pid = (s.procs q).pid ∧
        (s'.procs q).children =
          if q = (s.procs p).parent then s.procNext p else (s.procs q).children := by
  have hprev' : s.procPrev p ≠ p := hprev ▸ Ne.symm hp
  have hup : ((unlistProcess s p).procs p).parent = (s.procs p).parent := by
    rw [unlistProcess_procs hprev']
  obtain ⟨t, ht⟩ : ∃ t, processRemoveChild (unlistProcess s p) (s.procs p).parent p = t := ⟨_, rfl⟩
  have hdrop := dropFirst_procs (s := s) (s.procs p).parent hp hprev
  rw [ht] at hdrop
  refine ⟨t, ?_, ?_, fun q => ⟨?_, ?_, ?_⟩⟩
  · obtain ⟨n, hn⟩ := Nat.exists_eq_succ_of_ne_zero addresses_pos.ne'
    have hnone : (t.procs p).children = 0 := by
      rw [hdrop, if_neg (Ne.symm hne)]
      exact hchildless
    rw [processDestroy, hn, destroyWith, if_neg hp]
    simp only [hup, ne_eq, hparent, not_false_eq_true, if_true, ht, hnone]
    rw [hn, destroyChildren, if_pos rfl]
    rfl
  · rw [← ht, (processRemoveChild_frame _ _ _).1, (unlistProcess_links hprev').1,
      IsDList.unlinkHead, if_neg (not_not.mpr hprev)]
  · rw [System.procNext, hdrop]
    rfl
  · rw [hdrop]
  · rw [hdrop]

/-- `thread_create` leaves the processes, and returns nothing if there is no memory. -/
theorem threadCreate_failed (s : System) (proc : ℕ) {thread stackBase : ℕ}
    (h : thread = 0 ∨ stackBase = 0) :
    (threadCreate s proc thread stackBase).2 = 0 ∧
      (threadCreate s proc thread stackBase).1.procs = s.procs ∧
      (threadCreate s proc thread stackBase).1.processList = s.processList := by
  unfold threadCreate
  dsimp only
  split_ifs with h₁ h₂ h₃
  · exact ⟨rfl, rfl, rfl⟩
  · exact ⟨rfl, rfl, rfl⟩
  · exact ⟨rfl, rfl, rfl⟩
  · exact absurd h (not_or.mpr ⟨h₂, h₃⟩)

/-- **A fork that fails** leaves the list of all processes at the children of the current one, and
the other processes as they were. -/
theorem fork_failed (p : ℕ) {space thread stackBase : ℕ} (hcur : s.currentProcess ≠ 0)
    (hcp : s.currentProcess ≠ p) (hp : p ≠ 0) (hspace : space ≠ 0)
    (hfail : thread = 0 ∨ stackBase = 0) :
    ∃ s', processFork s p space thread stackBase = some (s', -1) ∧
      s'.processList = (s.procs s.currentProcess).children ∧
      ∀ q, q ≠ p → s'.procNext q = s.procNext q ∧ (s'.procs q).pid = (s.procs q).pid ∧
        (s'.procs q).children = (s.procs q).children := by
  obtain ⟨hret, hc⟩ := processCreate_created hp hspace hcp
  obtain ⟨t, ht⟩ : ∃ t, (processCreate s p space).1 = t := ⟨_, rfl⟩
  obtain ⟨f, hf⟩ : ∃ f : Process → Process, (fun p : Process =>
      { p with signalHandlers := fun i =>
          if i < 32 then (t.procs t.currentProcess).signalHandlers i else p.signalHandlers i }) = f :=
    ⟨_, rfl⟩
  obtain ⟨hnone, hprocs, hlist⟩ := threadCreate_failed (t.setProc p f) p hfail
  obtain ⟨u, hu⟩ : ∃ u, (threadCreate (t.setProc p f) p thread stackBase).1 = u := ⟨_, rfl⟩
  have hfork : processFork s p space thread stackBase =
      (processDestroy u p).map fun (s, _) => (s, -1) := by
    rw [processFork, if_neg hcur]
    simp only [hret, if_neg hp, ht, hf, hnone, hu, if_true]
  rw [ht] at hc
  rw [hu] at hprocs hlist
  -- the handlers are all that was copied
  have hkeep {β : Type} (field : Process → β)
      (hfield : ∀ x g, field { x with signalHandlers := g } = field x) (q : ℕ) :
      field (u.procs q) = field (t.procs q) := by
    rw [hprocs]
    exact t.setProc_keep p field (fun x => by rw [← hf]; exact hfield x _) q
  have hparent : (u.procs p).parent = s.currentProcess :=
    (hkeep Process.parent (fun _ _ => rfl) p).trans hc.parent
  have hnext (q : ℕ) : u.procNext q = t.procNext q := hkeep Process.next (fun _ _ => rfl) q
  obtain ⟨s', hdestroy, hhead, hrest⟩ := processDestroy_first (s := u) (p := p) hp
    ((hkeep Process.prev (fun _ _ => rfl) p).trans hc.prev) (hparent ▸ hcur)
    ((hkeep Process.children (fun _ _ => rfl) p).trans hc.childless) (hparent ▸ hcp)
  have hfirst : u.procNext p = (s.procs s.currentProcess).children := by
    rw [hnext, hc.next, if_pos hcur]
  refine ⟨s', by rw [hfork, hdestroy]; rfl, hhead.trans hfirst, fun q hq => ⟨?_, ?_, ?_⟩⟩
  · rw [(hrest q).1, hnext, hc.nextOld q hq]
  · rw [(hrest q).2.1, hkeep Process.pid (fun _ _ => rfl), hc.pidOld q hq]
  · rw [(hrest q).2.2, hparent, hfirst, hkeep Process.children (fun _ _ => rfl),
      hc.childrenOld q hq]
    by_cases hqc : q = s.currentProcess
    · rw [if_pos hqc, hqc]
    · rw [if_neg hqc, if_neg fun h => hqc h.2]

/-- **Forking atomically**: a fork that fails for want of a thread leaves the table as it was
exactly if the first child of the current process is the first of all processes. -/
theorem fork_restores_iff (s : System) (calls : List ProcCall) (hbuilds : ∀ c ∈ calls, c.Builds)
    (r : ProcRun) (hrun : run procStep (procRunInit s) calls = some r)
    (p space thread stackBase : ℕ) (hcur : r.sys.currentProcess ≠ 0) (hp : p ≠ 0)
    (hfresh : p ∉ r.live) (hspace : space ≠ 0) (hfail : thread = 0 ∨ stackBase = 0) :
    ∃ s', processFork r.sys p space thread stackBase = some (s', -1) ∧
      (TableRestored r.live r.sys s' ↔
        (r.sys.procs r.sys.currentProcess).children = r.sys.processList) := by
  have hr := builtTable_run hbuilds (builtTable_init s) hrun
  have hne : ∀ q ∈ r.live, q ≠ p := by
    rintro q hq rfl
    exact hfresh hq
  have hlive := hr.current.resolve_left hcur
  obtain ⟨s', hfork, hhead, hrest⟩ := fork_failed p hcur (hne _ hlive) hp hspace hfail
  refine ⟨s', hfork, fun h => ?_, fun h => ?_⟩
  · obtain ⟨procs, hseg, -⟩ := hr.links.seg hr.head
    rw [← hhead, ((h.list procs).mpr hseg).headD, hseg.headD]
  · have hsame : ∀ q ∈ r.live, s'.procNext q = r.sys.procNext q := fun q hq =>
      (hrest q (hne q hq)).1
    refine ⟨fun procs => ?_, fun q hq cs => ?_, fun pid => ?_⟩
    · rw [hhead, h]
      exact hr.links.seg_iff hsame hr.head
    · rw [(hrest q (hne q hq)).2.2]
      exact hr.links.seg_iff hsame (hr.children q hq)
    · obtain ⟨procs, hseg, hmem⟩ := hr.links.seg hr.head
      have hlen := hseg.length_lt (fun q hq => hr.addr q (hmem q hq)) addresses_pos
      rw [processFindByPid, processFindByPid, hhead, h, findPid_eq hseg hlen,
        findPid_eq (hseg.congr fun q hq => hsame q (hmem q hq)) hlen]
      congr 2
      refine List.find?_congr fun q hq => ?_
      rw [(hrest q (hne q (hmem q hq))).2.1]

/-- A process forks that has created one before. -/
theorem fork_restores_second :
    ∃ r s', run procStep (procRunInit default) [.create 8 1, .dispatch 8, .create 16 1] = some r ∧
      processFork r.sys 24 1 0 1 = some (s', -1) ∧ TableRestored r.live r.sys s' := by
  have hend : (run procStep (procRunInit default) [.create 8 1, .dispatch 8, .create 16 1]).map
      (fun r => (r.live, r.sys.currentProcess, (r.sys.procs 8).children, r.sys.processList)) =
        some ([16, 8], 8, 16, 16) := by decide +kernel
  obtain ⟨r, hrun, hvals⟩ := Option.map_eq_some_iff.mp hend
  simp only [Prod.mk.injEq] at hvals
  obtain ⟨hlive, hcur, hchildren, hhead⟩ := hvals
  obtain ⟨s', hfork, hiff⟩ := fork_restores_iff default
    [.create 8 1, .dispatch 8, .create 16 1] (by simp [ProcCall.Builds]) r hrun 24 1 0 1
    (by rw [hcur]; decide) (by decide) (by rw [hlive]; decide) (by decide) (.inl rfl)
  exact ⟨r, s', hrun, hfork, hiff.mpr (by rw [hcur, hchildren, hhead])⟩

/-- After the fork of a process without children there are no processes any more. -/
theorem fork_loses_list : ¬ ∀ (s : System) (calls : List ProcCall), (∀ c ∈ calls, c.Builds) →
    ∀ r, run procStep (procRunInit s) calls = some r →
      ∀ p space thread stackBase, r.sys.currentProcess ≠ 0 → p ≠ 0 → p ∉ r.live → space ≠ 0 →
        thread = 0 ∨ stackBase = 0 →
          ∀ s', processFork r.sys p space thread stackBase = some (s', -1) →
            TableRestored r.live r.sys s' := by
  intro h
  have hend : (run procStep (procRunInit default) [.create 8 1, .create 16 1, .dispatch 8]).map
      (fun r => (r.live, r.sys.currentProcess, (r.sys.procs 8).children, r.sys.processList,
        r.sys.procNext 16, r.sys.procNext 8)) = some ([16, 8], 8, 0, 16, 8, 0) := by decide +kernel
  obtain ⟨r, hrun, hvals⟩ := Option.map_eq_some_iff.mp hend
  simp only [Prod.mk.injEq] at hvals
  obtain ⟨hlive, hcur, hchildren, hhead, hnext, hlast⟩ := hvals
  have hcur₀ : r.sys.currentProcess ≠ 0 := by rw [hcur]; decide
  obtain ⟨s', hfork, hlost, -⟩ := fork_failed 24 hcur₀ (by rw [hcur]; decide) (by decide)
    (show 1 ≠ 0 by decide) (show 0 = 0 ∨ 1 = 0 from .inl rfl)
  have hlist := (h default [.create 8 1, .create 16 1, .dispatch 8] (by simp [ProcCall.Builds]) r
    hrun 24 1 0 1 hcur₀ (by decide) (by rw [hlive]; decide) (by decide) (.inl rfl) s' hfork).list
      [16, 8]
  have hseg : Seg s'.procNext s'.processList [16, 8] 0 :=
    hlist.mpr ⟨hhead, by decide, hnext, by decide, hlast⟩
  rw [hlost, hcur, hchildren] at hseg
  exact absurd hseg.1 (by decide)

end PrismaticOS.Kernel
