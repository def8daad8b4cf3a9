import PrismaticOS.Kernel.ProcessTable
import PrismaticOS.Library.Forests

/-!
# Waiting for a child

`process_waitpid` of `kernel/process.c`, where one of the children it may be called for is a
zombie.

It takes the first child of the list that matches and sleeps until that one is a zombie. Nothing
sends it on to the next child. The child that is reaped is taken off the list of its parent,
and `process_destroy` takes it off a list a second time, by the same links, and destroys its
children and theirs.

## What is proved

* `destroyChildren_spec` — what is left where a forest of processes is destroyed.
* `waitpid_reaps_iff` — a zombie is reaped at once exactly if the first child that matches is one.
* `waits_for_running` — the number -1, with a running child in front of a zombie.
-/

namespace PrismaticOS.Kernel

open PrismaticOS.Library

/-- The links of the processes. -/
def System.links (s : System) : Links ℕ where
  next := s.procNext
  prev := s.procPrev
  first p := (s.procs p).children
  up p := (s.procs p).parent

/-- The child is one that `process_waitpid(pid, ..)` is called for. -/
def Matches (s : System) (pid child : ℕ) : Prop := (s.procs child).pid = pid ∨ pid = 2 ^ 32 - 1

instance (s : System) (pid child : ℕ) : Decidable (Matches s pid child) :=
  inferInstanceAs (Decidable (_ ∨ _))

/-- A zombie that matches. -/
def MatchingZombie (s : System) (pid child : ℕ) : Prop :=
  Matches s pid child ∧ (s.procs child).state = .zombie

/-- `process_waitpid` reaps a zombie of the children `kids` without sleeping: it returns the number
of the child and the code that it exited with, and leaves the list of the others. -/
def ReapsZombie (s : System) (pid : ℕ) (kids : List ℕ) : Prop :=
  ∃ child ∈ kids, MatchingZombie s pid child ∧ ∃ s' freed,
    processWaitpid s pid = some (s', .reaped (s.procs child).pid (s.procs child).exitCode freed) ∧
      Seg s'.procNext (s'.procs s.currentProcess).children (kids.erase child) 0 ∧
        ∀ other ∈ kids.erase child, other ∉ freed

/-- The first child that matches is a zombie. -/
def FirstZombie (s : System) (pid : ℕ) (kids : List ℕ) : Prop :=
  ∃ child, kids.find? (Matches s pid ·) = some child ∧ (s.procs child).state = .zombie

/-- The children of the current process, and what is below them, are a forest in memory. -/
def ChildrenLinked (s : System) (kids : List ℕ) : Prop :=
  ∃ f : Forest ℕ, f.roots = kids ∧
    Hangs s.links s.currentProcess 0 (s.procs s.currentProcess).children f ∧ f.nodes.Nodup ∧
      s.currentProcess ∉ f.nodes ∧ ∀ p ∈ f.nodes, p < addresses

variable {s s' : System} {p q parent child pid : ℕ} {kids freed : List ℕ}

/-! ### The search -/

/-- The search returns the first child that matches, or `NULL`. -/
theorem findChild_eq :
    ∀ {steps head : ℕ}, Seg s.procNext head kids 0 → kids.length < steps →
      findChild s.procs pid steps head = some ((kids.find? (Matches s pid ·)).getD 0) := by
  induction kids with
  | nil =>
    intro steps head h hlt
    obtain ⟨n, rfl⟩ := Nat.exists_eq_succ_of_ne_zero (Nat.ne_of_gt hlt)
    exact if_pos h
  | cons x kids ih =>
    intro steps head h hlt
    obtain ⟨n, rfl⟩ := Nat.exists_eq_succ_of_ne_zero (Nat.ne_of_gt (Nat.zero_lt_of_lt hlt))
    obtain ⟨rfl, h0, h⟩ := h
    unfold findChild
    rw [if_neg h0, List.find?_cons]
    by_cases hm : Matches s pid head
    · rw [decide_eq_true hm]
      exact if_pos hm
    · rw [decide_eq_false hm]
      refine (if_neg hm).trans ?_
      exact ih h (Nat.lt_of_succ_lt_succ hlt)

/-! ### Destroying a forest -/

/-- Destroying a process: it is taken off the lists, and then its children are destroyed. -/
theorem destroyWith_eq {depth : ℕ} {s₁ : System} (hp : p ≠ 0)
    (hs₁ : (if ((unlistProcess s p).procs p).parent ≠ 0 then
      processRemoveChild (unlistProcess s p) ((unlistProcess s p).procs p).parent p else
      unlistProcess s p) = s₁)
    (hchildren : destroyChildren (destroyWith depth) addresses s₁ (s₁.procs p).children =
      some (s', freed)) :
    destroyWith (depth + 1) s p = some (s', freed ++ [p]) := by
  rw [destroyWith, if_neg hp]
  dsimp only
  rw [hs₁, hchildren]
  rfl

/-- What destroying the children of a process leaves. -/
structure Childless (s s' : System) (parent : ℕ) (f : Forest ℕ) (freed : List ℕ) : Prop where
  /-- The children and what was below them are freed. -/
  freed : ∀ q ∈ freed, q ∈ f.nodes
  /-- The others are as they were, and the process has no children. -/
  procs : ∀ q, q ∉ f.nodes → s'.procs q =
    { s.procs q with children := if q = parent then 0 else (s.procs q).children }

/-- Where the forest is that of the children of a process, destroying them leaves the other
processes as they were. -/
def DestroysForest (f : Forest ℕ) : Prop :=
  ∀ (depth steps parent : ℕ) (s : System),
    Hangs s.links parent 0 (s.procs parent).children f → f.nodes.Nodup → parent ≠ 0 →
      parent ∉ f.nodes → f.nodes.length ≤ depth → f.nodes.length < steps →
        f.nodes.length < addresses →
          ∃ s' freed, destroyChildren (destroyWith depth) steps s (s.procs parent).children =
            some (s', freed) ∧ Childless s s' parent f freed

/-- The first child of a process is destroyed: the next one is the first. -/
theorem DestroysForest.first {below after : Forest ℕ} (hdestroy : DestroysForest below)
    (depth : ℕ) (h : Hangs s.links parent 0 (s.procs parent).children (.tree p below after))
    (hnd : (Forest.tree p below after).nodes.Nodup) (hparent : parent ≠ 0)
    (hout : parent ∉ (Forest.tree p below after).nodes) (hdepth : below.nodes.length ≤ depth)
    (haddr : below.nodes.length < addresses) :
    ∃ s' freed, destroyWith (depth + 1) s p = some (s', freed) ∧
      (∀ q ∈ freed, q ∈ p :: below.nodes) ∧
        ∀ q, q ≠ p → q ∉ below.nodes → s'.procs q = { s.procs q with
          children := if q = parent then s.procNext p else (s.procs q).children
          prev := if s.procNext p ≠ 0 ∧ q = s.procNext p then 0 else (s.procs q).prev } := by
  obtain ⟨-, hp, hprev, hup, hbelow, hafter⟩ := h
  obtain ⟨hnotin, hnd⟩ := List.nodup_cons.mp hnd
  obtain ⟨hndb, -, hdisj⟩ := List.nodup_append.mp hnd
  obtain ⟨hne, hout⟩ := not_or.mp (List.mem_cons.not.mp hout)
  have hprev : s.procPrev p = 0 := hprev
  -- it is taken off the lists, and nothing below it changes
  obtain ⟨s₁, hs₁⟩ : ∃ t, processRemoveChild (unlistProcess s p) parent p = t := ⟨_, rfl⟩
  have h₁ := dropFirst_procs (s := s) parent hp hprev
  rw [hs₁] at h₁
  have hsame : ∀ q ∈ below.nodes, s₁.procs q = s.procs q := by
    intro q hq
    have hqp : q ≠ p := by
      rintro rfl
      exact hnotin (List.mem_append_left _ hq)
    have hqpar : q ≠ parent := by
      rintro rfl
      exact hout (List.mem_append_left _ hq)
    have hqn : ¬ (s.procNext p ≠ 0 ∧ q = s.procNext p) := by
      rintro ⟨hnext, rfl⟩
      exact hdisj _ hq _ (after.roots_subset (hafter.head_mem hnext)) rfl
    rw [h₁, if_neg hqp, if_neg hqpar, if_neg hqn]
  have hchildren : (s₁.procs p).children = (s.procs p).children := by
    rw [h₁, if_neg (Ne.symm hne)]
  have hbelow₁ : Hangs s₁.links p 0 (s₁.procs p).children below := by
    rw [hchildren]
    refine hbelow.congr fun q hq => ?_
    simp only [System.links, System.procNext, System.procPrev, hsame q hq, and_self]
  -- its children are destroyed
  obtain ⟨s', freed, hrun, hs'⟩ := hdestroy depth addresses p s₁ hbelow₁ hndb hp
    (fun hq => hnotin (List.mem_append_left _ hq)) hdepth haddr haddr
  have hupU : ((unlistProcess s p).procs p).parent = parent := by
    rw [unlistProcess_procs (hprev.trans_ne (Ne.symm hp))]
    exact hup
  refine ⟨s', freed ++ [p], destroyWith_eq hp ?_ hrun, fun q hq => ?_, fun q hqp hq => ?_⟩
  · rw [hupU, if_pos hparent, hs₁]
  · rcases List.mem_append.mp hq with hq | hq
    · exact List.mem_cons_of_mem p (hs'.freed q hq)
    · exact List.mem_singleton.mp hq ▸ List.mem_cons_self
  · rw [hs'.procs q hq, if_neg hqp, h₁, if_neg hqp]

/-- Where the first of the children is destroyed, the others are the children. -/
theorem others_hang {below after : Forest ℕ} {s₁ : System}
    (h : Hangs s.links parent 0 (s.procs parent).children (.tree p below after))
    (hnd : (Forest.tree p below after).nodes.Nodup)
    (hout : parent ∉ (Forest.tree p below after).nodes)
    (h₁ : ∀ q, q ≠ p → q ∉ below.nodes → s₁.procs q = { s.procs q with
      children := if q = parent then s.procNext p else (s.procs q).children
      prev := if s.procNext p ≠ 0 ∧ q = s.procNext p then 0 else (s.procs q).prev }) :
    (s₁.procs parent).children = s.procNext p ∧
      Hangs s₁.links parent 0 (s₁.procs parent).children after := by
  obtain ⟨-, -, -, -, -, hafter⟩ := h
  obtain ⟨hnotin, hnd⟩ := List.nodup_cons.mp hnd
  obtain ⟨-, hnda, hdisj⟩ := List.nodup_append.mp hnd
  obtain ⟨hne, hout⟩ := not_or.mp (List.mem_cons.not.mp hout)
  have hhead : (s₁.procs parent).children = s.procNext p := by
    rw [h₁ parent hne fun hq => hout (List.mem_append_left _ hq)]
    exact if_pos rfl
  refine ⟨hhead, ?_⟩
  rw [hhead]
  refine hafter.relink hnda fun q hq => ?_
  have hqp : q ≠ p := by
    rintro rfl
    exact hnotin (List.mem_append_right _ hq)
  have hqpar : q ≠ parent := by
    rintro rfl
    exact hout (List.mem_append_right _ hq)
  have hq₁ := h₁ q hqp fun hqb => hdisj q hqb q hq rfl
  have hprev : (s₁.procs q).prev = if q = s.procNext p then 0 else s.procPrev q := by
    refine (congrArg Process.prev hq₁).trans ?_
    show (if s.procNext p ≠ 0 ∧ q = s.procNext p then 0 else (s.procs q).prev) = _
    by_cases hqn : q = s.procNext p
    · rw [if_pos ⟨hqn ▸ hafter.ne_zero hq, hqn⟩, if_pos hqn]
    · rw [if_neg fun hnext => hqn hnext.2, if_neg hqn]
      rfl
  refine ⟨?_, hprev, (congrArg Process.children hq₁).trans (if_neg hqpar), ?_⟩
  · exact (congrArg Process.next hq₁).trans rfl
  · exact (congrArg Process.parent hq₁).trans rfl

/-- **Destroying the children** of a process frees them and what is below them. -/
theorem destroysForest (f : Forest ℕ) : DestroysForest f := by
  induction f with
  | nil =>
    intro depth steps parent s h _ _ _ _ hsteps _
    obtain ⟨n, rfl⟩ := Nat.exists_eq_succ_of_ne_zero (Nat.ne_of_gt hsteps)
    have hnone : (s.procs parent).children = 0 := h
    refine ⟨s, [], by rw [destroyChildren, if_pos hnone], nofun, fun q _ => ?_⟩
    by_cases hq : q = parent
    · rw [if_pos hq, hq, ← hnone]
    · rw [if_neg hq]
  | tree p below after ihb iha =>
    intro depth steps parent s h hnd hparent hout hdepth hsteps haddr
    simp only [Forest.nodes, List.length_cons, List.length_append] at hdepth hsteps haddr
    obtain ⟨d, rfl⟩ := Nat.exists_eq_succ_of_ne_zero (show depth ≠ 0 by omega)
    obtain ⟨n, rfl⟩ := Nat.exists_eq_succ_of_ne_zero (show steps ≠ 0 by omega)
    obtain ⟨s₁, freed, hgone, hfreed, h₁⟩ :=
      ihb.first d h hnd hparent hout (by omega) (by omega)
    obtain ⟨hhead₁, hafter₁⟩ := others_hang h hnd hout h₁
    obtain ⟨hhead, hp, -, -, -, hafter⟩ := h
    obtain ⟨-, hnd⟩ := List.nodup_cons.mp hnd
    obtain ⟨-, hnda, -⟩ := List.nodup_append.mp hnd
    obtain ⟨-, hout⟩ := not_or.mp (List.mem_cons.not.mp hout)
    obtain ⟨s', freed', hrest, hs'⟩ := iha (d + 1) n parent s₁ hafter₁ hnda hparent
      (fun hq => hout (List.mem_append_right _ hq)) (by omega) (by omega) (by omega)
    refine ⟨s', freed ++ freed', ?_, fun q hq => ?_, fun q hq => ?_⟩
    · rw [hhead₁] at hrest
      rw [hhead, destroyChildren, if_neg hp, hgone]
      dsimp only [Option.bind_some]
      rw [hrest]
      rfl
    · rcases List.mem_append.mp hq with hq | hq
      · rcases List.mem_cons.mp (hfreed q hq) with rfl | hq
        · exact List.mem_cons_self
        · exact List.mem_cons_of_mem p (List.mem_append_left _ hq)
      · exact List.mem_cons_of_mem p (List.mem_append_right _ (hs'.freed q hq))
    · obtain ⟨hqp, hq⟩ := not_or.mp (List.mem_cons.not.mp hq)
      have hqa : q ∉ after.nodes := fun hqa => hq (List.mem_append_right _ hqa)
      have hqn : ¬ (s.procNext p ≠ 0 ∧ q = s.procNext p) := by
        rintro ⟨hnext, rfl⟩
        exact hqa (after.roots_subset (hafter.head_mem hnext))
      rw [hs'.procs q hqa, h₁ q hqp fun hqb => hq (List.mem_append_left _ hqb), if_neg hqn]
      by_cases hqpar : q = parent
      · simp only [if_pos hqpar]
      · simp only [if_neg hqpar]

/-! ### Reaping -/

/-- The list of the children that stay. -/
theorem removed_list (hlist : IsDList s.procNext s.procPrev (s.procs parent).children kids)
    (hc : child ∈ kids) :
    Seg (processRemoveChild s parent child).procNext
      ((processRemoveChild s parent child).procs parent).children (kids.erase child) 0 := by
  have h := processRemoveChild_procs parent (hlist.prev_ne hc)
  have hnext : (processRemoveChild s parent child).procNext =
      IsDList.unlinkNext s.procNext s.procPrev child := by
    funext q
    refine (congrArg Process.next (h q)).trans ?_
    unfold IsDList.unlinkNext
    by_cases h₀ : s.procPrev child ≠ 0
    · rw [if_pos h₀, Function.update_apply]
      by_cases hq : q = s.procPrev child
      · rw [if_pos hq]
        exact if_pos ⟨h₀, hq⟩
      · rw [if_neg hq]
        exact if_neg fun hboth => hq hboth.2
    · rw [if_neg h₀]
      exact if_neg fun hboth => h₀ hboth.1
  have hhead : ((processRemoveChild s parent child).procs parent).children =
      IsDList.unlinkHead s.procNext s.procPrev (s.procs parent).children child := by
    refine (congrArg Process.children (h parent)).trans ?_
    unfold IsDList.unlinkHead
    by_cases h₀ : s.procPrev child ≠ 0
    · rw [if_pos h₀]
      exact if_neg fun hboth => h₀ hboth.1
    · rw [if_neg h₀]
      exact if_pos ⟨not_not.mp h₀, rfl⟩
  have hnd := hlist.nodup
  obtain ⟨l, r, rfl⟩ := List.append_of_mem hc
  have hnotin : child ∉ l := fun hl => (List.nodup_append.mp hnd).2.2 child hl child List.mem_cons_self rfl
  rw [List.erase_append_right _ hnotin, List.erase_cons_head, hnext, hhead]
  exact hlist.unlink.seg

/-- Taking a child that was removed off the list of all processes changes no process. -/
theorem unlistProcess_removed (parent : ℕ) (hprev : s.procPrev child ≠ child) (q : ℕ) :
    (unlistProcess (processRemoveChild s parent child) child).procs q =
      (processRemoveChild s parent child).procs q := by
  have h := processRemoveChild_procs parent hprev
  have hnext : (processRemoveChild s parent child).procNext child = s.procNext child :=
    (congrArg Process.next (h child)).trans (if_neg fun hboth => hprev hboth.2.symm)
  have hprev' : (processRemoveChild s parent child).procPrev child = s.procPrev child := by
    refine (congrArg Process.prev (h child)).trans ?_
    show (if s.procNext child ≠ 0 ∧ child = s.procNext child then s.procPrev child else
      s.procPrev child) = s.procPrev child
    rw [ite_self]
  rw [unlistProcess_procs (hprev'.trans_ne hprev), hnext, hprev', h]
  by_cases h₁ : s.procPrev child ≠ 0 ∧ q = s.procPrev child <;>
    by_cases h₂ : s.procNext child ≠ 0 ∧ q = s.procNext child
  · simp only [if_pos h₁, if_pos h₂]
  · simp only [if_pos h₁, if_neg h₂]
  · simp only [if_neg h₁, if_pos h₂]
  · simp only [if_neg h₁, if_neg h₂]

/-- Removing a child changes nothing below it. -/
theorem removed_below {g : Forest ℕ}
    (hlist : IsDList s.procNext s.procPrev (s.procs parent).children kids) (hc : child ∈ kids)
    (hapart : ∀ q ∈ kids, q ∉ g.nodes) (hout : parent ∉ g.nodes) :
    ∀ q ∈ g.nodes, (processRemoveChild s parent child).procs q = s.procs q := by
  intro q hq
  have hqc : q ≠ child := by
    rintro rfl
    exact hapart q hc hq
  have hqpar : ¬ (s.procPrev child = 0 ∧ q = parent) := by
    rintro ⟨-, rfl⟩
    exact hout hq
  have hqp : ¬ (s.procPrev child ≠ 0 ∧ q = s.procPrev child) := by
    rintro ⟨h₀, rfl⟩
    exact hapart _ (hlist.prev_mem hc h₀) hq
  have hqn : ¬ (s.procNext child ≠ 0 ∧ q = s.procNext child) := by
    rintro ⟨h₀, rfl⟩
    exact hapart _ (hlist.next_mem hc h₀) hq
  rw [processRemoveChild_procs parent (hlist.prev_ne hc), if_neg hqc, if_neg hqpar, if_neg hqp,
    if_neg hqn]

/-- A child that was removed is destroyed with all that is below it. -/
theorem destroy_removed {g : Forest ℕ}
    (hlist : IsDList s.procNext s.procPrev (s.procs parent).children kids) (hc : child ∈ kids)
    (hne : child ≠ parent) (hg : Hangs s.links child 0 (s.procs child).children g)
    (hnd : g.nodes.Nodup) (hapart : ∀ q ∈ kids, q ∉ g.nodes) (hout : parent ∉ g.nodes)
    (hlen : g.nodes.length < addresses) :
    ∃ s' freed, processDestroy (processRemoveChild s parent child) child =
        some (s', freed ++ [child]) ∧ (∀ q ∈ freed, q ∈ g.nodes) ∧
      ∀ q, q ∉ g.nodes → s'.procs q = { (processRemoveChild s parent child).procs q with
        children := if q = child then 0
          else ((processRemoveChild s parent child).procs q).children } := by
  have hunlist := unlistProcess_removed parent (hlist.prev_ne hc)
  have hsame := removed_below hlist hc hapart hout
  have hremove := processRemoveChild_procs parent (hlist.prev_ne hc) child
  obtain ⟨t, ht⟩ : ∃ t, processRemoveChild s parent child = t := ⟨_, rfl⟩
  rw [ht] at hunlist hsame hremove ⊢
  have hup : (t.procs child).parent = 0 := by
    rw [hremove]
    exact if_pos rfl
  have hchildren : (t.procs child).children = (s.procs child).children := by
    rw [hremove]
    exact if_neg fun hboth => hne hboth.2
  have hg' : Hangs (unlistProcess t child).links child 0
      ((unlistProcess t child).procs child).children g := by
    rw [hunlist, hchildren]
    refine hg.congr fun q hq => ?_
    simp only [System.links, System.procNext, System.procPrev, hunlist, hsame q hq, and_self]
  obtain ⟨n, hn⟩ := Nat.exists_eq_succ_of_ne_zero addresses_pos.ne'
  obtain ⟨s', freed, hrun, hs'⟩ := destroysForest g n addresses child (unlistProcess t child) hg'
    hnd (hlist.seg.ne_zero hc) (hapart child hc) (by omega) hlen hlen
  refine ⟨s', freed, ?_, hs'.freed, fun q hq => ?_⟩
  · rw [processDestroy, hn]
    refine destroyWith_eq (hlist.seg.ne_zero hc) ?_ hrun
    rw [hunlist, hup, if_neg (not_not.mpr rfl)]
  · rw [hs'.procs q hq, hunlist]

/-- **Reaping a zombie**: it is destroyed with all that is below it, and the list of the others is
left. -/
theorem waitTurn_reaps (h : ChildrenLinked s kids) (hc : child ∈ kids)
    (hzombie : (s.procs child).state = .zombie) :
    ∃ s' freed, waitTurn s child =
        some (s', .reaped (s.procs child).pid (s.procs child).exitCode freed) ∧
      Seg s'.procNext (s'.procs s.currentProcess).children (kids.erase child) 0 ∧
        ∀ other ∈ kids.erase child, other ∉ freed := by
  obtain ⟨f, rfl, hangs, hnd, hout, haddr⟩ := h
  have hlist := hangs.list
  obtain ⟨g, hg, -, hndg, hsub, hapart⟩ := hangs.below hnd hc
  have hlen := hg.length_lt hndg (fun q hq => haddr q (hsub hq)) addresses_pos
  have hne : child ≠ s.currentProcess := by
    rintro rfl
    exact hout (f.roots_subset hc)
  have houtg : s.currentProcess ∉ g.nodes := fun hq => hout (hsub hq)
  obtain ⟨s', freed, hdestroy, hfreed, hkept⟩ :=
    destroy_removed hlist hc hne hg hndg hapart houtg hlen
  have hremove := processRemoveChild_procs s.currentProcess (hlist.prev_ne hc) child
  have hrest := removed_list hlist hc
  obtain ⟨t, ht⟩ : ∃ t, processRemoveChild s s.currentProcess child = t := ⟨_, rfl⟩
  rw [ht] at hdestroy hkept hremove hrest
  refine ⟨s', freed ++ [child], ?_, ?_, fun other hother hgone => ?_⟩
  · have hpid : (s'.procs child).pid = (s.procs child).pid := by
      rw [hkept child (hapart child hc), hremove]
    rw [waitTurn, if_neg (not_not.mpr hzombie), ht, hdestroy]
    simp only [Option.map_some, hpid]
  · have hhead : (s'.procs s.currentProcess).children = (t.procs s.currentProcess).children :=
      (congrArg Process.children (hkept _ houtg)).trans (if_neg (Ne.symm hne))
    rw [hhead]
    refine hrest.congr fun q hq => ?_
    exact (congrArg Process.next (hkept q (hapart q (List.mem_of_mem_erase hq)))).trans rfl
  · rcases List.mem_append.mp hgone with hgone | hgone
    · exact hapart other (List.mem_of_mem_erase hother) (hfreed other hgone)
    · rw [List.mem_singleton.mp hgone] at hother
      exact hlist.nodup.not_mem_erase hother

/-! ### The call -/

/-- `process_waitpid` looks at the first child that matches. -/
theorem processWaitpid_eq (hcur : s.currentProcess ≠ 0)
    (hkids : Seg s.procNext (s.procs s.currentProcess).children kids 0)
    (haddr : ∀ c ∈ kids, c < addresses) (hfind : kids.find? (Matches s pid ·) = some child) :
    processWaitpid s pid = waitTurn s child := by
  have hmem := List.mem_of_find?_eq_some hfind
  have hlen := hkids.length_lt haddr addresses_pos
  rw [processWaitpid, if_neg hcur, findChild_eq hkids hlen, hfind, Option.getD_some,
    Option.bind_some, if_neg (hkids.ne_zero hmem)]

/-- A zombie is reaped only if the first child that matches is one: the caller sleeps until it is. -/
theorem reaps_first (hcur : s.currentProcess ≠ 0)
    (hkids : Seg s.procNext (s.procs s.currentProcess).children kids 0)
    (haddr : ∀ c ∈ kids, c < addresses) (hfind : kids.find? (Matches s pid ·) = some child)
    (h : ReapsZombie s pid kids) : FirstZombie s pid kids := by
  obtain ⟨c, -, -, s', freed, hreaped, -⟩ := h
  refine ⟨child, hfind, ?_⟩
  by_contra hrunning
  rw [processWaitpid_eq hcur hkids haddr hfind, waitTurn, if_pos hrunning] at hreaped
  obtain ⟨t, -, ht⟩ := Option.map_eq_some_iff.mp hreaped
  cases ht

/-- **Waiting for a child**: where one of the children that match is a zombie, one is reaped only
if the first that matches is a zombie, and in a forest if it is. -/
theorem waitpid_reaps_iff (s : System) (pid : ℕ) (kids : List ℕ) (hcur : s.currentProcess ≠ 0)
    (hkids : Seg s.procNext (s.procs s.currentProcess).children kids 0)
    (haddr : ∀ c ∈ kids, c < addresses) (hzombie : ∃ c ∈ kids, MatchingZombie s pid c) :
    (ReapsZombie s pid kids → FirstZombie s pid kids) ∧
      (ChildrenLinked s kids → (ReapsZombie s pid kids ↔ FirstZombie s pid kids)) := by
  obtain ⟨z, hz, hmatch, -⟩ := hzombie
  obtain ⟨child, hfind⟩ : ∃ c, kids.find? (Matches s pid ·) = some c :=
    Option.isSome_iff_exists.mp (List.find?_isSome.mpr ⟨z, hz, decide_eq_true hmatch⟩)
  have hfirst := reaps_first hcur hkids haddr hfind
  refine ⟨hfirst, fun h => ⟨hfirst, ?_⟩⟩
  rintro ⟨c, hc, hdead⟩
  obtain rfl : child = c := Option.some.inj (hfind.symm.trans hc)
  have hmem := List.mem_of_find?_eq_some hfind
  obtain ⟨s', freed, hreaped, hrest⟩ := waitTurn_reaps h hmem hdead
  have hfound := List.find?_some (p := fun c => decide (Matches s pid c)) hfind
  exact ⟨child, hmem, ⟨of_decide_eq_true hfound, hdead⟩, s', freed,
    (processWaitpid_eq hcur hkids haddr hfind).trans hreaped, hrest⟩

/-- The process 8 with its children 16 and 24. -/
def twoChildren (first second : ProcState) : System where
  procs p :=
    if p = 8 then { (default : Process) with pid := 1, children := 16 }
    else if p = 16 then { (default : Process) with pid := 2, state := first, parent := 8, next := 24 }
    else if p = 24 then { (default : Process) with pid := 3, state := second, parent := 8, prev := 16 }
    else default
  processList := 8
  currentProcess := 8
  nextPid := 4
  threads := default
  readyQueue := 0
  currentThread := 0
  nextTid := 1

theorem twoChildren_linked (first second : ProcState) :
    ChildrenLinked (twoChildren first second) [16, 24] := by
  refine ⟨.tree 16 .nil (.tree 24 .nil .nil), rfl, ?_, by decide, ?_, ?_⟩
  · simp [Hangs, System.links, System.procNext, System.procPrev, twoChildren]
    decide
  · exact show 8 ∉ [16, 24] by decide
  · decide +kernel

/-- The zombie is in front of a running child. -/
theorem waitpid_reaps_zombie : ReapsZombie (twoChildren .zombie .running) (2 ^ 32 - 1) [16, 24] :=
  (((waitpid_reaps_iff (twoChildren .zombie .running) (2 ^ 32 - 1) [16, 24] (by decide)
    ⟨rfl, by decide, rfl, by decide, rfl⟩ (by decide +kernel)
    ⟨16, by decide, .inr rfl, rfl⟩).2 (twoChildren_linked _ _))).mpr ⟨16, rfl, rfl⟩

/-- A running child is in front of the zombie: the caller sleeps. -/
theorem waits_for_running : ¬ ∀ (s : System) (pid : ℕ) (kids : List ℕ), s.currentProcess ≠ 0 →
    ChildrenLinked s kids → (∃ c ∈ kids, MatchingZombie s pid c) → ReapsZombie s pid kids := by
  intro h
  have hreaps := h (twoChildren .running .zombie) (2 ^ 32 - 1) [16, 24] (by decide)
    (twoChildren_linked _ _) ⟨24, by decide, .inr rfl, rfl⟩
  have hfind : [16, 24].find? (Matches (twoChildren .running .zombie) (2 ^ 32 - 1) ·) = some 16 := rfl
  have hseg : Seg (twoChildren .running .zombie).procNext 16 [16, 24] 0 :=
    ⟨rfl, by decide, rfl, by decide, rfl⟩
  obtain ⟨c, hc, hzombie⟩ := reaps_first (by decide) hseg (by decide +kernel) hfind hreaps
  obtain rfl : 16 = c := Option.some.inj hc
  cases hzombie

end PrismaticOS.Kernel
