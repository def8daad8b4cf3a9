import PrismaticOS.Html.SiblingLists

/-!
# Destroying nodes

`dom_node_destroy` takes a node out of the list of its parent, destroys its children, and frees
it, whatever the reference counts of the children are.

## The model

`refCount` is `node->ref_count`, and `freed` are the nodes that were freed. A node that was
freed is blank. `fuel` says how deep the calls may be nested; a call on more nodes than that
returns nothing.

## What is proved

* `Lists.unlink` — taking the node out of its list.
* `destroy_ends` — with as much fuel as there can be nodes on lists, the calls return, and the
  node and all its children are freed.
-/

namespace PrismaticOS.Html

open PrismaticOS.Library PrismaticOS.Libc

variable {d d' : Dom} {c n : ℕ} {kids : ℕ → List ℕ} {X : Finset ℕ}

/-- Nodes with reference counts. -/
structure RefDom where
  /-- The nodes. -/
  dom : Dom
  /-- `node->ref_count`. -/
  refCount : ℕ → ℕ
  /-- The references that the callers hold. -/
  held : ℕ → ℕ
  /-- The nodes that were freed, the last one first. -/
  freed : List ℕ

/-- The part of `dom_node_destroy` that takes a node out of the list of its parent. -/
def Dom.unlink (d : Dom) (node : ℕ) : Dom :=
  if d.parent node = 0 then d
  else
    let parent := d.parent node
    let d := if d.first parent = node then d.setFirst parent (d.next node) else d
    let d := if d.last parent = node then d.setLast parent (d.prev node) else d
    let d := if d.prev node ≠ 0 then d.setNext (d.prev node) (d.next node) else d
    if d.next node ≠ 0 then d.setPrev (d.next node) (d.prev node) else d

/-- `free(node)`. -/
def RefDom.free (s : RefDom) (node : ℕ) : RefDom :=
  { s with dom := s.dom.modify node fun _ => blankNode .element, freed := node :: s.freed }

mutual

/-- `dom_node_destroy`. -/
def domNodeDestroy : ℕ → RefDom → ℕ → Option RefDom
  | 0, _, _ => none
  | fuel + 1, s, node =>
    if node = 0 then some s
    else
      let s := { s with dom := s.dom.unlink node }
      (destroyChildren fuel s (s.dom.first node)).map fun s => s.free node

/-- The loop of `dom_node_destroy` over the children. -/
def destroyChildren : ℕ → RefDom → ℕ → Option RefDom
  | 0, _, _ => none
  | fuel + 1, s, child =>
    if child = 0 then some s
    else
      let next := s.dom.next child
      (domNodeDestroy fuel s child).bind fun s => destroyChildren fuel s next

end

/-! ### Taking a node out -/

/-- Lists depend on the links only. -/
theorem Lists.congr (h : Lists d kids) (hnext : d'.next = d.next) (hprev : d'.prev = d.prev)
    (hparent : d'.parent = d.parent) (hfirst : d'.first = d.first) (hlast : d'.last = d.last) :
    Lists d' kids where
  list := by
    rw [hnext, hprev, hfirst]
    exact h.list
  last := by
    rw [hlast]
    exact h.last
  mem := by
    rw [hparent]
    exact h.mem
  alone := by
    rw [hparent, hnext, hprev]
    exact h.alone

/-- Memory where the nodes `X`, which are being destroyed, are on no list. -/
def Dom.cut (d : Dom) (X : Finset ℕ) : Dom :=
  { d with
    nodes := fun n =>
      if n ∈ X then { d.nodes n with parent := 0, prevSibling := 0, nextSibling := 0 }
      else d.nodes n }

@[simp] theorem cut_parent (d : Dom) (X : Finset ℕ) (n : ℕ) :
    (d.cut X).parent n = if n ∈ X then 0 else d.parent n := by
  simp [Dom.parent, Dom.cut, apply_ite DomNode.parent]

@[simp] theorem cut_prev (d : Dom) (X : Finset ℕ) (n : ℕ) :
    (d.cut X).prev n = if n ∈ X then 0 else d.prev n := by
  simp [Dom.prev, Dom.cut, apply_ite DomNode.prevSibling]

@[simp] theorem cut_next (d : Dom) (X : Finset ℕ) (n : ℕ) :
    (d.cut X).next n = if n ∈ X then 0 else d.next n := by
  simp [Dom.next, Dom.cut, apply_ite DomNode.nextSibling]

@[simp] theorem cut_first (d : Dom) (X : Finset ℕ) : (d.cut X).first = d.first := by
  funext n
  simp [Dom.first, Dom.cut, apply_ite DomNode.firstChild]

@[simp] theorem cut_last (d : Dom) (X : Finset ℕ) : (d.cut X).last = d.last := by
  funext n
  simp [Dom.last, Dom.cut, apply_ite DomNode.lastChild]

@[simp] theorem cut_empty (d : Dom) : d.cut ∅ = d := by
  simp [Dom.cut]

/-- A node on a list is not being destroyed. -/
theorem Lists.not_cut (h : Lists (d.cut X) kids) (hn : n ≠ 0) (hc : c ∈ kids n) :
    c ∉ X ∧ d.parent c = n := by
  have hparent := ((h.mem n c hn).mp hc).2
  rw [cut_parent] at hparent
  split_ifs at hparent with hX
  · exact absurd hparent.symm hn
  · exact ⟨hX, hparent⟩

@[simp] theorem unlink_parent (d : Dom) (c : ℕ) : (d.unlink c).parent = d.parent := by
  unfold Dom.unlink
  simp [apply_ite Dom.parent]

@[simp] theorem unlink_count (d : Dom) (c : ℕ) : (d.unlink c).count = d.count := by
  unfold Dom.unlink
  simp [apply_ite Dom.count]

theorem unlink_next (hp : d.parent c ≠ 0) :
    (d.unlink c).next = IsDList.unlinkNext d.next d.prev c := by
  rw [Dom.unlink, if_neg hp]
  simp [apply_ite Dom.next, apply_ite Dom.prev, apply_ite Dom.last, IsDList.unlinkNext]

theorem unlink_prev (hp : d.parent c ≠ 0) (hprev : d.prev c ≠ c) :
    (d.unlink c).prev = IsDList.unlinkPrev d.next d.prev c := by
  rw [Dom.unlink, if_neg hp]
  simp [apply_ite Dom.next, apply_ite Dom.prev, apply_ite Dom.last, IsDList.unlinkPrev]
  rw [update_past hprev]

/-- The forward links, with the node cut: the predecessor is one that is not. -/
theorem cut_unlink_next (hX : c ∉ X) (hp : d.parent c ≠ 0) (hprev : d.prev c ≠ c)
    (hbefore : d.prev c ≠ 0 → d.prev c ∉ X) :
    ((d.unlink c).cut (insert c X)).next =
      Function.update (IsDList.unlinkNext (d.cut X).next (d.cut X).prev c) c 0 := by
  funext y
  rw [cut_next, unlink_next hp, IsDList.unlinkNext, IsDList.unlinkNext, cut_prev, cut_next,
    if_neg hX, if_neg hX]
  by_cases hy : y = c
  · simp [hy]
  by_cases hzero : d.prev c = 0
  · simp [hy, hzero]
  by_cases hyp : y = d.prev c
  · simp [hyp, hzero, hbefore hzero, hprev]
  · simp [hy, hyp, hzero]

/-- The backward links. -/
theorem cut_unlink_prev (hX : c ∉ X) (hp : d.parent c ≠ 0) (hprev : d.prev c ≠ c)
    (hafter : d.next c ≠ 0 → d.next c ∉ X) :
    ((d.unlink c).cut (insert c X)).prev =
      Function.update (IsDList.unlinkPrev (d.cut X).next (d.cut X).prev c) c 0 := by
  funext y
  rw [cut_prev, unlink_prev hp hprev, IsDList.unlinkPrev, IsDList.unlinkPrev, cut_prev, cut_next,
    if_neg hX, if_neg hX]
  by_cases hy : y = c
  · simp [hy]
  by_cases hzero : d.next c = 0
  · simp [hy, hzero]
  by_cases hyn : y = d.next c
  · subst hyn
    simp [hy, hzero, hafter hzero]
  · simp [hy, hyn, hzero]

/-- A node without a parent is on no list. -/
theorem Lists.unlink_alone (h : Lists (d.cut X) kids) (hX : c ∉ X) (hp : d.parent c = 0) :
    Lists ((d.unlink c).cut (insert c X)) fun n => (kids n).erase c := by
  have halone := h.alone c (by rw [cut_parent, if_neg hX, hp])
  rw [cut_next, cut_prev, if_neg hX, if_neg hX] at halone
  have hsame : d.unlink c = d := if_pos hp
  rw [hsame]
  have herase : Lists (d.cut X) fun n => (kids n).erase c := by
    apply h.of_eq
    intro n hn
    apply h.erase_of_ne hn
    rw [cut_parent, if_neg hX, hp]
    exact hn.symm
  apply herase.congr
  · funext y
    by_cases hy : y = c <;> simp [hy, hX, halone]
  · funext y
    by_cases hy : y = c <;> simp [hy, hX, halone]
  · funext y
    by_cases hy : y = c <;> simp [hy, hX, hp]
  · simp
  · simp

/-- **A node is taken out** of the list that it is on. -/
theorem Lists.unlink (h : Lists (d.cut X) kids) (hc : c ≠ 0) (hX : c ∉ X) :
    Lists ((d.unlink c).cut (insert c X)) fun n => (kids n).erase c := by
  by_cases hp : d.parent c = 0
  · exact h.unlink_alone hX hp
  · have hparent : (d.cut X).parent c = d.parent c := by rw [cut_parent, if_neg hX]
    have hmem : c ∈ kids (d.parent c) := (h.mem _ c hp).mpr ⟨hc, hparent⟩
    have hlist := h.list _ hp
    have hprev : (d.cut X).prev c ≠ c := hlist.prev_ne hmem
    have hu := removeChild_unlinked hp hc hparent hprev
    have hreadPrev : (d.cut X).prev c = d.prev c := by rw [cut_prev, if_neg hX]
    have hreadNext : (d.cut X).next c = d.next c := by rw [cut_next, if_neg hX]
    have hbefore : d.prev c ≠ 0 → d.prev c ∉ X := fun hne =>
      (h.not_cut hp (hreadPrev ▸ hlist.prev_mem hmem (hreadPrev ▸ hne))).1
    have hafter : d.next c ≠ 0 → d.next c ∉ X := fun hne =>
      (h.not_cut hp (hreadNext ▸ hlist.next_mem hmem (hreadNext ▸ hne))).1
    rw [hreadPrev] at hprev
    apply (h.remove hp hc hparent).congr
    · rw [hu.next, cut_unlink_next hX hp hprev hbefore]
    · rw [hu.prev, cut_unlink_prev hX hp hprev hafter]
    · rw [hu.parent]
      funext y
      by_cases hy : y = c <;> simp [hy]
    · rw [hu.first, cut_first, cut_first, Dom.unlink, if_neg hp]
      simp [apply_ite Dom.first, hX]
    · rw [hu.last, cut_last, cut_last, Dom.unlink, if_neg hp]
      simp [apply_ite Dom.last, apply_ite Dom.prev, hX]

@[simp] theorem free_next (s : RefDom) (c : ℕ) :
    (s.free c).dom.next = Function.update s.dom.next c 0 :=
  @Dom.field_set s.dom c 0 (fun _ => blankNode .element) DomNode.nextSibling fun _ => rfl

@[simp] theorem free_prev (s : RefDom) (c : ℕ) :
    (s.free c).dom.prev = Function.update s.dom.prev c 0 :=
  @Dom.field_set s.dom c 0 (fun _ => blankNode .element) DomNode.prevSibling fun _ => rfl

@[simp] theorem free_parent (s : RefDom) (c : ℕ) :
    (s.free c).dom.parent = Function.update s.dom.parent c 0 :=
  @Dom.field_set s.dom c 0 (fun _ => blankNode .element) DomNode.parent fun _ => rfl

@[simp] theorem free_first (s : RefDom) (c : ℕ) :
    (s.free c).dom.first = Function.update s.dom.first c 0 :=
  @Dom.field_set s.dom c 0 (fun _ => blankNode .element) DomNode.firstChild fun _ => rfl

@[simp] theorem free_last (s : RefDom) (c : ℕ) :
    (s.free c).dom.last = Function.update s.dom.last c 0 :=
  @Dom.field_set s.dom c 0 (fun _ => blankNode .element) DomNode.lastChild fun _ => rfl

/-- **A node without children** is freed. -/
theorem Lists.free {s : RefDom} (h : Lists (s.dom.cut (insert c X)) kids) (hc : c ≠ 0)
    (hnone : kids c = []) : Lists ((s.free c).dom.cut X) kids := by
  have hfirst : s.dom.first c = 0 := by
    have hlist := (h.list c hc).seg.eq_nil_iff.mp hnone
    rwa [cut_first] at hlist
  have hlast : s.dom.last c = 0 := by
    have hlist := h.last c hc
    rw [cut_last, hnone] at hlist
    exact hlist
  apply h.congr
  · funext y
    by_cases hy : y = c <;> simp [hy]
  · funext y
    by_cases hy : y = c <;> simp [hy]
  · funext y
    by_cases hy : y = c <;> simp [hy]
  · rw [cut_first, cut_first, free_first, ← hfirst, Function.update_eq_self]
  · rw [cut_last, cut_last, free_last, ← hlast, Function.update_eq_self]

/-! ### The calls return -/

/-- What a call of `dom_node_destroy` leaves, where the nodes `X` are being destroyed. -/
structure Destroyed (X : Finset ℕ) (kids : ℕ → List ℕ) (c : ℕ) (s s' : RefDom) : Prop where
  /-- The lists are in order, and the nodes being destroyed lose at most this child. -/
  lists : ∃ kids', Lists (s'.dom.cut X) kids' ∧ ∀ q ∈ X, q ≠ 0 → kids' q = (kids q).erase c
  /-- No node gets a parent. -/
  parent : ∀ y, s'.dom.parent y = s.dom.parent y ∨ s'.dom.parent y = 0
  /-- The node has none. -/
  gone : s'.dom.parent c = 0
  /-- What was freed stays freed. -/
  mono : s.freed ⊆ s'.freed
  /-- The node is freed. -/
  self : c ∈ s'.freed
  /-- Its children are freed. -/
  children : ∀ x ∈ kids c, x ≠ c → x ∈ s'.freed
  /-- The references stay. -/
  held : s'.held = s.held

/-- What the loop over the children of `n` leaves, where the nodes `X` are being destroyed. -/
structure Emptied (X : Finset ℕ) (kids : ℕ → List ℕ) (n : ℕ) (s s' : RefDom) : Prop where
  /-- The lists are in order, the node has no children, and the other nodes being destroyed
  keep theirs. -/
  lists : ∃ kids', Lists (s'.dom.cut X) kids' ∧ kids' n = [] ∧
    ∀ q ∈ X, q ≠ 0 → q ≠ n → kids' q = kids q
  /-- No node gets a parent. -/
  parent : ∀ y, s'.dom.parent y = s.dom.parent y ∨ s'.dom.parent y = 0
  /-- What was freed stays freed. -/
  mono : s.freed ⊆ s'.freed
  /-- The children are freed. -/
  children : ∀ x ∈ kids n, x ∈ s'.freed
  /-- The references stay. -/
  held : s'.held = s.held

/-- The calls of `dom_node_destroy` with some fuel return. -/
def DestroyEnds (fuel : ℕ) : Prop :=
  ∀ (s : RefDom) (X : Finset ℕ) (kids : ℕ → List ℕ) (c : ℕ) (linked : Finset ℕ),
    Lists (s.dom.cut X) kids → c ≠ 0 → c ∉ X →
    (∀ y, y ∉ insert c X → s.dom.parent y ≠ 0 → y ∈ linked) → 2 * linked.card + 2 ≤ fuel →
    ∃ s', domNodeDestroy fuel s c = some s' ∧ Destroyed X kids c s s'

/-- The loops over the children of a node with some fuel return. -/
def ChildrenEnd (fuel : ℕ) : Prop :=
  ∀ (s : RefDom) (X : Finset ℕ) (kids : ℕ → List ℕ) (n : ℕ) (linked : Finset ℕ),
    Lists (s.dom.cut X) kids → n ≠ 0 → n ∈ X →
    (∀ y, y ∉ X → s.dom.parent y ≠ 0 → y ∈ linked) → 2 * linked.card + 1 ≤ fuel →
    ∃ s', destroyChildren fuel s (s.dom.first n) = some s' ∧ Emptied X kids n s s'

/-- The call, if its loop returns. -/
theorem ChildrenEnd.destroy {fuel : ℕ} (ih : ChildrenEnd fuel) : DestroyEnds (fuel + 1) := by
  intro s X kids c linked h hc hX hlinked hfuel
  have hunlinked := h.unlink hc hX
  obtain ⟨s', hloop, hdone⟩ := ih { s with dom := s.dom.unlink c } (insert c X) _ c linked
    hunlinked hc (Finset.mem_insert_self c X) (by simpa using hlinked) (by omega)
  obtain ⟨kids', hlists, hnone, hothers⟩ := hdone.lists
  refine ⟨s'.free c, ?_, ?_⟩
  · rw [domNodeDestroy, if_neg hc]
    exact Option.map_eq_some_iff.mpr ⟨s', hloop, rfl⟩
  constructor
  · refine ⟨kids', hlists.free hc hnone, ?_⟩
    intro q hq hne
    apply hothers q (Finset.mem_insert_of_mem hq) hne
    rintro rfl
    exact hX hq
  · intro y
    have hparent := hdone.parent y
    rw [unlink_parent] at hparent
    rw [free_parent, Function.update_apply]
    split_ifs
    · exact .inr rfl
    · exact hparent
  · rw [free_parent, Function.update_self]
  · exact fun y hy => List.mem_cons_of_mem c (hdone.mono hy)
  · exact List.mem_cons_self
  · intro x hx hne
    exact List.mem_cons_of_mem c (hdone.children x ((List.mem_erase_of_ne hne).mpr hx))
  · exact hdone.held

/-- The loop, if the call and the rest of the loop return. -/
theorem DestroyEnds.children {fuel : ℕ} (ih : DestroyEnds fuel) (ihc : ChildrenEnd fuel) :
    ChildrenEnd (fuel + 1) := by
  intro s X kids n linked h hn hX hlinked hfuel
  have hlist := h.list n hn
  rw [cut_first] at hlist
  cases hkids : kids n with
  | nil =>
    have hfirst : s.dom.first n = 0 := hlist.seg.eq_nil_iff.mp hkids
    refine ⟨s, by rw [destroyChildren, if_pos hfirst], ⟨kids, h, hkids, fun _ _ _ _ => rfl⟩,
      fun _ => .inl rfl, fun _ hy => hy, ?_, rfl⟩
    rw [hkids]
    exact fun x hx => absurd hx List.not_mem_nil
  | cons c rest =>
    have hmem : c ∈ kids n := hkids ▸ List.mem_cons_self
    obtain ⟨hcX, hparent⟩ := h.not_cut hn hmem
    obtain ⟨hfirst, hc, hrest⟩ := hkids ▸ hlist.seg
    have hc_linked : c ∈ linked := hlinked c hcX (hparent ▸ hn)
    have hcard := Finset.card_erase_add_one hc_linked
    obtain ⟨s₁, hdestroy, hgone⟩ := ih s X kids c (linked.erase c) h hc hcX
      (fun y hy hne => by
        rw [Finset.mem_insert, not_or] at hy
        exact Finset.mem_erase.mpr ⟨hy.1, hlinked y hy.2 hne⟩) (by omega)
    obtain ⟨kids₁, hlists₁, hothers₁⟩ := hgone.lists
    have hkids₁ : kids₁ n = rest := by
      rw [hothers₁ n hX hn, hkids, List.erase_cons_head]
    obtain ⟨s', hloop, hdone⟩ := ihc s₁ X kids₁ n (linked.erase c) hlists₁ hn hX
      (fun y hy hne => by
        refine Finset.mem_erase.mpr ⟨?_, ?_⟩
        · rintro rfl
          exact hne hgone.gone
        · exact hlinked y hy fun h₀ => hne (by
            rcases hgone.parent y with hsame | hzero
            · rw [hsame, h₀]
            · exact hzero)) (by omega)
    have hnext : s.dom.next c = s₁.dom.first n := by
      have hlist₁ := (hlists₁.list n hn).seg
      rw [cut_first, hkids₁] at hlist₁
      have hread : (s.dom.cut X).next c = s.dom.next c := by rw [cut_next, if_neg hcX]
      rw [← hread, hrest.headD, hlist₁.headD]
    refine ⟨s', ?_, ?_⟩
    · rw [destroyChildren, if_neg (hfirst ▸ hc), hfirst, hdestroy, hnext]
      exact hloop
    obtain ⟨kids', hlists', hnone', hothers'⟩ := hdone.lists
    constructor
    · refine ⟨kids', hlists', hnone', ?_⟩
      intro q hq hq₀ hqn
      rw [hothers' q hq hq₀ hqn, hothers₁ q hq hq₀]
      apply h.erase_of_ne hq₀
      rw [cut_parent, if_neg hcX, hparent]
      exact Ne.symm hqn
    · intro y
      rcases hdone.parent y with hsame | hzero
      · rw [hsame]
        exact hgone.parent y
      · exact .inr hzero
    · exact fun y hy => hdone.mono (hgone.mono hy)
    · intro x hx
      rw [hkids] at hx
      rcases List.mem_cons.mp hx with rfl | hx
      · exact hdone.mono hgone.self
      · exact hdone.children x (hkids₁ ▸ hx)
    · rw [hdone.held, hgone.held]

/-- With fuel for all nodes on lists, calls and loops return. -/
theorem destroy_children_end (fuel : ℕ) : DestroyEnds fuel ∧ ChildrenEnd fuel := by
  induction fuel with
  | zero =>
    constructor
    · intro s X kids c linked _ _ _ _ hfuel
      omega
    · intro s X kids n linked _ _ _ _ hfuel
      omega
  | succ fuel ih => exact ⟨ih.2.destroy, ih.1.children ih.2⟩

/-- **Destroying a node** returns, and frees the node and its children. -/
theorem destroy_ends {s : RefDom} (h : Lists s.dom kids) (hc : c ≠ 0)
    (hunused : ∀ y, s.dom.count < y → s.dom.parent y = 0) : ∃ s',
      domNodeDestroy (2 * s.dom.count + 4) s c = some s' ∧ Destroyed ∅ kids c s s' := by
  apply (destroy_children_end _).1 s ∅ kids c (Finset.range (s.dom.count + 1))
  · rwa [cut_empty]
  · exact hc
  · exact Finset.notMem_empty c
  · intro y _ hy
    rw [Finset.mem_range, Nat.lt_succ_iff]
    by_contra hlate
    exact hy (hunused y (not_le.mp hlate))
  · rw [Finset.card_range]
    omega

end PrismaticOS.Html
