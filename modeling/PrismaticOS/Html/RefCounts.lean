import PrismaticOS.Html.Destroy

/-!
# Reference counts

`dom_node_ref` and `dom_node_unref` count the references to a node, and the last
`dom_node_unref` destroys it. A node also destroys its children, without a look at their counts.

## The model

A caller that makes a node holds a reference to it, `dom_node_ref` gives another one, and
`dom_node_unref` takes one back. A call is made on nodes that are there, or on `NULL`, and
`dom_node_unref` by a caller that holds a reference. `ref_count` has 32 bits.

## What is proved

* `unref_returns` — `dom_node_unref` returns.
* `no_held_node_freed` — no node is freed while somebody holds a reference to it, exactly if
  whenever `dom_node_unref` makes a count zero, nobody else holds a reference to the node and
  the node has no children.
-/

namespace PrismaticOS.Html

open PrismaticOS.Library PrismaticOS.Libc

variable {s s' : RefDom} {n : ℕ}

/-! ### Calls -/

/-- Memory without nodes. -/
def noRefs : RefDom := ⟨noNodes, fun _ => 0, fun _ => 0, []⟩

/-- A node was made, with a reference for the caller. -/
def RefDom.made (s : RefDom) (new : Dom × ℕ) : RefDom :=
  { s with
    dom := new.1
    refCount := Function.update s.refCount new.2 1
    held := Function.update s.held new.2 1 }

/-- `dom_node_ref`. -/
def domNodeRef (s : RefDom) (node : ℕ) : RefDom :=
  { s with refCount := Function.update s.refCount node ((s.refCount node + 1) % 2 ^ 32) }

/-- `dom_node_unref`. -/
def domNodeUnref (s : RefDom) (node : ℕ) : Option RefDom :=
  let s := { s with
    refCount := Function.update s.refCount node ((s.refCount node + (2 ^ 32 - 1)) % 2 ^ 32) }
  if s.refCount node = 0 then domNodeDestroy (2 * s.dom.count + 4) s node else some s

/-- A caller holds `v` references to a node. -/
def RefDom.hold (s : RefDom) (node v : ℕ) : RefDom :=
  { s with held := Function.update s.held node v }

/-- A node that was made and not freed. -/
def Alive (s : RefDom) (n : ℕ) : Prop := Created s.dom n ∧ n ∉ s.freed

instance : Decidable (Alive s n) := inferInstanceAs (Decidable (_ ∧ _))

/-- A call. -/
inductive RefCall where
  /-- `dom_node_create(type)`. -/
  | create (type : DomNodeType)
  /-- `dom_element_create(tag_name)`. -/
  | createElement (tagName : Option Str)
  /-- `dom_text_create(data)`. -/
  | createText (data : Option Str)
  /-- `dom_node_ref(node)`. -/
  | ref (node : ℕ)
  /-- `dom_node_unref(node)`. -/
  | unref (node : ℕ)
  /-- `dom_node_append_child(parent, child)`. -/
  | append (parent child : ℕ)
  /-- `dom_node_remove_child(parent, child)`. -/
  | remove (parent child : ℕ)

/-- A call on nodes that are there, or on `NULL`; a reference that is given back was held. -/
def refStep (s : RefDom) : RefCall → Option RefDom
  | .create type => some (s.made (domNodeCreate s.dom type))
  | .createElement tagName => some (s.made (domElementCreate s.dom tagName))
  | .createText data => some (s.made (domTextCreate s.dom data))
  | .ref node =>
    if node = 0 then some s
    else if Alive s node then some ((domNodeRef s node).hold node (s.held node + 1))
    else none
  | .unref node =>
    if node = 0 then some s
    else if Alive s node ∧ 0 < s.held node then
      domNodeUnref (s.hold node (s.held node - 1)) node
    else none
  | .append parent child =>
    if (parent = 0 ∨ Alive s parent) ∧ (child = 0 ∨ Alive s child) then
      some { s with dom := domNodeAppendChild s.dom parent child }
    else none
  | .remove parent child =>
    if (parent = 0 ∨ Alive s parent) ∧ (child = 0 ∨ Alive s child) then
      some { s with dom := domNodeRemoveChild s.dom parent child }
    else none

/-- Nobody holds a reference to a node that was freed. -/
def NoneDangling (s : RefDom) : Prop := ∀ n ∈ s.freed, s.held n = 0

/-- A call of `dom_node_unref` that makes the count of a node zero gives back the last reference
to it, and no other node has it as its parent. -/
def LastAndChildless (s : RefDom) : RefCall → Prop
  | .unref node => node ≠ 0 → s.refCount node = 1 →
      s.held node = 1 ∧ ∀ c, Alive s c → s.dom.parent c = node → c = node
  | _ => True

/-! ### The invariant -/

/-- The invariant of a run, as long as no reference dangles. -/
structure RefInv (s : RefDom) : Prop where
  /-- The lists of children. -/
  dom : DomInv s.dom
  /-- Every node is held, and its count is the number of references. -/
  alive : ∀ n, Alive s n → 0 < s.held n ∧ s.refCount n = s.held n % 2 ^ 32
  /-- No node that was freed is held. -/
  dangling : NoneDangling s
  /-- The nodes that were freed had been made. -/
  freed : ∀ n ∈ s.freed, n ≤ s.dom.count
  /-- They have no parent. -/
  gone : ∀ n ∈ s.freed, s.dom.parent n = 0

theorem noRefs_inv : RefInv noRefs where
  dom := noNodes_inv
  alive _ hn := absurd (Nat.le_zero.mp hn.1.2) hn.1.1
  dangling := fun _ hn => absurd hn List.not_mem_nil
  freed := fun _ hn => absurd hn List.not_mem_nil
  gone := fun _ hn => absurd hn List.not_mem_nil

/-- A new node. -/
theorem RefInv.made (h : RefInv s) {node : DomNode} (hnode : Loose node) :
    RefInv (s.made (s.dom.add node, s.dom.fresh)) := by
  have hnew : s.dom.fresh ∉ s.freed := fun hmem =>
    absurd (h.freed _ hmem) (not_le.mpr (Nat.lt_succ_self _))
  have hne : ∀ n ∈ s.freed, n ≠ s.dom.fresh := by
    rintro n hn rfl
    exact hnew hn
  constructor
  · exact h.dom.add hnode
  · intro n hn
    by_cases hfresh : n = s.dom.fresh
    · simp [RefDom.made, hfresh]
    · have hold : Alive s n :=
        ⟨⟨hn.1.1, Nat.le_of_lt_succ (lt_of_le_of_ne hn.1.2 hfresh)⟩, hn.2⟩
      simpa [RefDom.made, hfresh] using h.alive n hold
  · intro n hn
    have hzero := h.dangling n hn
    simpa [RefDom.made, hne n hn] using hzero
  · exact fun n hn => (h.freed n hn).trans (Nat.le_succ _)
  · intro n hn
    have hread : (s.dom.add node).parent n = s.dom.parent n :=
      congrArg DomNode.parent (Dom.add_of_ne s.dom node (hne n hn))
    exact hread.trans (h.gone n hn)

/-- Links change. -/
theorem RefInv.link (h : RefInv s) {d : Dom} (hd : DomInv d) (hcount : d.count = s.dom.count)
    (hgone : ∀ n ∈ s.freed, d.parent n = 0) : RefInv { s with dom := d } where
  dom := hd
  alive n hn := by
    apply h.alive n
    rwa [Alive, Created, hcount] at hn
  dangling := h.dangling
  freed n hn := by
    rw [hcount]
    exact h.freed n hn
  gone := hgone

/-- The number of references to a node changes, and its count with it. -/
theorem RefInv.count (h : RefInv s) (hn : n ∉ s.freed) {v w : ℕ} (hv : 0 < v)
    (hw : w = v % 2 ^ 32) :
    RefInv { s with
      refCount := Function.update s.refCount n w, held := Function.update s.held n v } where
  dom := h.dom
  alive m hm := by
    by_cases hmn : m = n
    · simp [hmn, hv, hw]
    · simpa [hmn] using h.alive m hm
  dangling m hm := by
    have hmn : m ≠ n := by
      rintro rfl
      exact hn hm
    simpa [hmn] using h.dangling m hm
  freed := h.freed
  gone := h.gone

/-! ### Giving references back -/

/-- **A node without other children** is destroyed alone. -/
theorem destroy_childless {kids : ℕ → List ℕ} (h : Lists s.dom kids) (hn : n ≠ 0)
    (hnone : ∀ c ∈ kids n, c = n) (fuel : ℕ) :
    domNodeDestroy (fuel + 2) s n = some (RefDom.free { s with dom := s.dom.unlink n } n) ∧
      Lists (RefDom.free { s with dom := s.dom.unlink n } n).dom fun m => (kids m).erase n := by
  have hcut : Lists (s.dom.cut ∅) kids := by rwa [cut_empty]
  have hunlinked := hcut.unlink hn (Finset.notMem_empty n)
  have hempty : (kids n).erase n = [] := by
    apply List.eq_nil_iff_forall_not_mem.mpr
    intro c hc
    obtain ⟨hne, hmem⟩ := (h.list n hn).nodup.mem_erase_iff.mp hc
    exact hne (hnone c hmem)
  have hfirst : (s.dom.unlink n).first n = 0 := by
    have hlist := (hunlinked.list n hn).seg.eq_nil_iff.mp hempty
    rwa [cut_first] at hlist
  constructor
  · rw [domNodeDestroy, if_neg hn]
    simp only [hfirst]
    rw [destroyChildren, if_pos rfl]
    rfl
  · have hfree := Lists.free (s := { s with dom := s.dom.unlink n }) hunlinked hn hempty
    rwa [cut_empty] at hfree

/-- **`dom_node_unref`** that destroys a node without children, with its last reference. -/
theorem RefInv.destroy (h : RefInv s) (hn : Alive s n)
    (hnone : ∀ c, Alive s c → s.dom.parent c = n → c = n) (refCount : ℕ → ℕ)
    (hcount : ∀ m, m ≠ n → refCount m = s.refCount m) :
    ∃ s', domNodeDestroy (2 * s.dom.count + 4)
        { s with refCount := refCount, held := Function.update s.held n 0 } n = some s' ∧
      RefInv s' := by
  obtain ⟨kids, hk⟩ := h.dom.lists
  have hkids : ∀ c ∈ kids n, c = n := by
    intro c hc
    obtain ⟨hc₀, hparent⟩ := (hk.mem n c hn.1.1).mp hc
    apply hnone c ⟨⟨hc₀, ?_⟩, ?_⟩ hparent
    · by_contra hlate
      exact hn.1.1 (hparent.symm.trans (h.dom.unused c (not_le.mp hlate)))
    · exact fun hfreed => hn.1.1 (hparent.symm.trans (h.gone c hfreed))
  obtain ⟨hdestroy, hlists⟩ := destroy_childless
    (s := { s with refCount := refCount, held := Function.update s.held n 0 }) hk hn.1.1 hkids
    (2 * s.dom.count + 2)
  refine ⟨_, hdestroy, ?_⟩
  have hcreated : (s.dom.unlink n).count = s.dom.count := unlink_count ..
  constructor
  · refine ⟨⟨_, hlists⟩, fun c hc => ?_, fun c => ?_⟩
    · rw [free_parent, unlink_parent, Function.update_apply]
      split_ifs
      · rfl
      · exact h.dom.unused c (hcreated ▸ hc)
    · rw [free_parent, unlink_parent, Function.update_apply]
      split_ifs
      · exact Nat.zero_le _
      · exact (h.dom.parents c).trans hcreated.ge
  · rintro m ⟨hm, hfreed⟩
    have hmn : m ≠ n := fun heq => hfreed (heq ▸ List.mem_cons_self)
    have hold : Alive s m := by
      refine ⟨⟨hm.1, hm.2.trans hcreated.le⟩, fun hmem => hfreed ?_⟩
      exact List.mem_cons_of_mem n hmem
    show 0 < Function.update s.held n 0 m ∧ refCount m = Function.update s.held n 0 m % 2 ^ 32
    rw [Function.update_of_ne hmn, hcount m hmn]
    exact h.alive m hold
  · intro m hm
    show Function.update s.held n 0 m = 0
    rcases List.mem_cons.mp hm with rfl | hm
    · exact Function.update_self ..
    · rw [Function.update_apply, h.dangling m hm, ite_self]
  · intro m hm
    rcases List.mem_cons.mp hm with rfl | hm
    · exact hn.1.2.trans hcreated.ge
    · exact (h.freed m hm).trans hcreated.ge
  · intro m hm
    rw [free_parent, unlink_parent, Function.update_apply]
    rcases List.mem_cons.mp hm with rfl | hm
    · rw [if_pos rfl]
    · rw [show s.dom.parent m = 0 from h.gone m hm, ite_self]

/-- The state in which `dom_node_unref` decides whether to destroy the node. -/
def RefDom.dropped (s : RefDom) (n : ℕ) : RefDom :=
  { s with
    refCount := Function.update s.refCount n ((s.refCount n + (2 ^ 32 - 1)) % 2 ^ 32)
    held := Function.update s.held n (s.held n - 1) }

theorem unref_eq (s : RefDom) (n : ℕ) : domNodeUnref (s.hold n (s.held n - 1)) n =
    if (s.refCount n + (2 ^ 32 - 1)) % 2 ^ 32 = 0 then
      domNodeDestroy (2 * s.dom.count + 4) (s.dropped n) n
    else some (s.dropped n) := by
  unfold domNodeUnref
  simp only [RefDom.hold, Function.update_self]
  rfl

/-- The count is zero after `dom_node_unref` if it was one. -/
theorem RefInv.unref_zero_iff (h : RefInv s) (hn : Alive s n) :
    (s.refCount n + (2 ^ 32 - 1)) % 2 ^ 32 = 0 ↔ s.refCount n = 1 := by
  obtain ⟨-, hcount⟩ := h.alive n hn
  omega

/-- What `dom_node_unref` leaves when it destroys a node. -/
theorem RefInv.destroyed (h : RefInv s) (hn : Alive s n) : ∃ s',
    domNodeDestroy (2 * s.dom.count + 4) (s.dropped n) n = some s' ∧
      n ∈ s'.freed ∧ (∀ c, Alive s c → s.dom.parent c = n → c ≠ n → c ∈ s'.freed) ∧
      s'.held = Function.update s.held n (s.held n - 1) := by
  obtain ⟨kids, hk⟩ := h.dom.lists
  obtain ⟨s', hdestroy, hdone⟩ := destroy_ends (s := s.dropped n) hk hn.1.1 h.dom.unused
  refine ⟨s', hdestroy, hdone.self, fun c hc hparent hne => ?_, hdone.held⟩
  exact hdone.children c ((hk.mem n c hn.1.1).mpr ⟨hc.1.1, hparent⟩) hne

/-- **`dom_node_unref`** returns. -/
theorem unref_returns (h : RefInv s) (hn : Alive s n) :
    ∃ s', domNodeUnref (s.hold n (s.held n - 1)) n = some s' := by
  rw [unref_eq]
  split_ifs
  · obtain ⟨s', hdestroy, -⟩ := h.destroyed hn
    exact ⟨s', hdestroy⟩
  · exact ⟨_, rfl⟩

/-- **`dom_node_unref`** keeps the invariant, unless it destroys a node that is held, or one
with a child. -/
theorem RefInv.unref (h : RefInv s) (hn : Alive s n)
    (hok : s.refCount n = 1 → s.held n = 1 ∧ ∀ c, Alive s c → s.dom.parent c = n → c = n)
    (hs : domNodeUnref (s.hold n (s.held n - 1)) n = some s') : RefInv s' := by
  obtain ⟨hheld, hcount⟩ := h.alive n hn
  rw [unref_eq] at hs
  split_ifs at hs with hzero
  · obtain ⟨hlast, hnone⟩ := hok ((h.unref_zero_iff hn).mp hzero)
    have hdrop : s.held n - 1 = 0 := by omega
    obtain ⟨s₁, hdestroy, hinv⟩ := h.destroy hn hnone (s.dropped n).refCount
      fun m hm => Function.update_of_ne hm ..
    rw [RefDom.dropped, hdrop] at hs
    cases hdestroy.symm.trans hs
    exact hinv
  · cases hs
    apply h.count hn.2
    · omega
    · omega

/-- **Every allowed call** keeps the invariant. -/
theorem RefInv.step (h : RefInv s) {call : RefCall} (hok : LastAndChildless s call)
    (hs : refStep s call = some s') : RefInv s' := by
  have hcreated : ∀ {m}, Alive s m → Created s.dom m := fun hm => hm.1
  cases call with
  | create type =>
    cases hs
    exact h.made ⟨rfl, rfl, rfl, rfl, rfl⟩
  | createElement tagName =>
    cases hs
    exact h.made ⟨rfl, rfl, rfl, rfl, rfl⟩
  | createText data =>
    cases hs
    exact h.made ⟨rfl, rfl, rfl, rfl, rfl⟩
  | ref node =>
    simp only [refStep] at hs
    split_ifs at hs with hnull hn
    · cases hs
      exact h
    · cases hs
      obtain ⟨-, hcount⟩ := h.alive node hn
      apply h.count hn.2 (Nat.succ_pos _)
      omega
  | unref node =>
    simp only [refStep] at hs
    split_ifs at hs with hnull hn
    · cases hs
      exact h
    · exact h.unref hn.1 (hok hnull) hs
  | append parent child =>
    simp only [refStep] at hs
    split_ifs at hs with hn
    cases hs
    by_cases hnull : parent = 0 ∨ child = 0
    · rw [domNodeAppendChild, if_pos hnull]
      exact h
    · rw [not_or] at hnull
      have hp := hn.1.resolve_left hnull.1
      have hc := hn.2.resolve_left hnull.2
      apply h.link (h.dom.append hp.1 hc.1) (appendChild_count ..)
      intro m hm
      rw [appendChild_parent _ hnull.1 hnull.2, Function.update_of_ne]
      · exact h.gone m hm
      · rintro rfl
        exact hc.2 hm
  | remove parent child =>
    simp only [refStep] at hs
    split_ifs at hs with hn
    cases hs
    apply h.link (h.dom.remove parent child) (removeChild_count ..)
    intro m hm
    rw [removeChild_parent]
    split_ifs
    · exact h.gone m hm
    · rw [Function.update_apply, h.gone m hm, ite_self]

/-- **Any other call** frees a node that is held. -/
theorem RefInv.dangles (h : RefInv s) {call : RefCall} (hno : ¬ LastAndChildless s call)
    (hs : refStep s call = some s') : ¬ NoneDangling s' := by
  cases call with
  | unref node =>
    simp only [LastAndChildless, Classical.not_imp, not_and_or, not_forall] at hno
    obtain ⟨hnull, hone, hbad⟩ := hno
    simp only [refStep, if_neg hnull] at hs
    split_ifs at hs with hn
    obtain ⟨hnode, hheld⟩ := hn
    rw [unref_eq, if_pos ((h.unref_zero_iff hnode).mpr hone)] at hs
    obtain ⟨s₁, hdestroy, hself, hchildren, hrefs⟩ := h.destroyed hnode
    cases hdestroy.symm.trans hs
    intro hnone
    rcases hbad with hlast | ⟨c, hc, hparent, hne⟩
    · have hzero := hnone node hself
      rw [hrefs, Function.update_self] at hzero
      omega
    · have hzero := hnone c (hchildren c hc hparent hne)
      rw [hrefs, Function.update_of_ne hne] at hzero
      exact (h.alive c hc).1.ne' hzero
  | create type => exact absurd trivial hno
  | createElement tagName => exact absurd trivial hno
  | createText data => exact absurd trivial hno
  | ref node => exact absurd trivial hno
  | append parent child => exact absurd trivial hno
  | remove parent child => exact absurd trivial hno

/-- **Reference counts.** In a run of calls by callers that give back references they hold, no
node is ever freed while somebody holds a reference to it, exactly if every `dom_node_unref`
that makes a count zero gives back the last reference to a node without children. -/
theorem no_held_node_freed (calls : List RefCall) :
    Always refStep NoneDangling noRefs calls ↔ Each refStep LastAndChildless noRefs calls := by
  apply always_iff_each (fun s (h : RefInv s) => h.dangling) _ _ noRefs_inv
  · exact fun s call s' h hok hs => h.step hok hs
  · exact fun s call s' h hno hs => h.dangles hno hs

/-- The parent of a node is given back, and the node is freed, which its maker still holds. -/
theorem child_freed : ¬ ∀ calls : List RefCall, Always refStep NoneDangling noRefs calls := by
  intro h
  have hrun : (run refStep noRefs [.createElement (some (str "p")), .createText (some (str "x")),
      .append 1 2, .unref 1]).map (fun s => (s.freed, s.held 2)) = some ([1, 2], 1) := by
    decide +kernel
  obtain ⟨s, hend, heq⟩ := Option.map_eq_some_iff.mp hrun
  simp only [Prod.mk.injEq] at heq
  obtain ⟨hfreed, hheld⟩ := heq
  have hzero := (h _).of_run hend 2 (by simp [hfreed])
  rw [hheld] at hzero
  cases hzero

end PrismaticOS.Html
