import PrismaticOS.Html.Dom

/-!
# The lists of children

`dom_node_append_child` and `dom_node_remove_child` of `dom.c` keep, for every node, a doubly
linked list of its children, with five pointers in each node: the two ends of its own list,
its two neighbours in the list it is in, and the node that list belongs to.

## What is proved

* `Lists.remove`, `Lists.append` — the two operations on lists that are in order.
* `sibling_lists` — from fresh nodes, in every state of a run, the list of every node ends,
  has no node twice, is the reverse of the list read from its last child, and has exactly the
  nodes whose parent it is; and appending moves a node to the end of a list and leaves the
  others as they were, but for that of its former parent.
-/

namespace PrismaticOS.Html

open PrismaticOS.Library PrismaticOS.Libc

variable {d d' : Dom} {p c n : ℕ} {kids : ℕ → List ℕ}

/-! ### The invariant -/

/-- The lists of children are in order, and `kids` are those lists. -/
structure Lists (d : Dom) (kids : ℕ → List ℕ) : Prop where
  /-- The links. -/
  list : ∀ n, n ≠ 0 → IsDList d.next d.prev (d.first n) (kids n)
  /-- The last child. -/
  last : ∀ n, n ≠ 0 → d.last n = (kids n).getLastD 0
  /-- The children are those that have the node as their parent. -/
  mem : ∀ n c, n ≠ 0 → (c ∈ kids n ↔ c ≠ 0 ∧ d.parent c = n)
  /-- A node without a parent has no neighbours. -/
  alone : ∀ c, d.parent c = 0 → d.next c = 0 ∧ d.prev c = 0

/-- A node is on one list only. -/
theorem Lists.not_mem (h : Lists d kids) (hn : n ≠ 0) (hc : d.parent c ≠ n) : c ∉ kids n :=
  fun hmem => hc ((h.mem n c hn).mp hmem).2

/-- The lists of two nodes have no node in common. -/
theorem Lists.disjoint {y : ℕ} (h : Lists d kids) (hn : n ≠ 0) (hp : p ≠ 0) (hnp : n ≠ p)
    (hy : y ∈ kids n) : y ∉ kids p := fun hyp =>
  hnp (((h.mem n y hn).mp hy).2.symm.trans ((h.mem p y hp).mp hyp).2)

/-- A node that has a first child has a last one. -/
theorem Lists.last_mem (h : Lists d kids) (hp : p ≠ 0) (hfirst : d.first p ≠ 0) :
    d.last p ∈ kids p := by
  rw [h.last p hp]
  exact IsDList.getLastD_mem fun hnil => hfirst ((h.list p hp).seg.eq_nil_iff.mp hnil)

theorem Lists.erase_of_ne (h : Lists d kids) (hn : n ≠ 0) (hc : d.parent c ≠ n) :
    (kids n).erase c = kids n := List.erase_of_not_mem (h.not_mem hn hc)

/-! ### Removing -/

/-- The links after `dom_node_remove_child`. -/
structure Unlinked (d' d : Dom) (p c : ℕ) : Prop where
  /-- The forward links. -/
  next : d'.next = Function.update (IsDList.unlinkNext d.next d.prev c) c 0
  /-- The backward links. -/
  prev : d'.prev = Function.update (IsDList.unlinkPrev d.next d.prev c) c 0
  /-- The parents. -/
  parent : d'.parent = Function.update d.parent c 0
  /-- The first children. -/
  first : d'.first = if d.first p = c then Function.update d.first p (d.next c) else d.first
  /-- The last children. -/
  last : d'.last = if d.last p = c then Function.update d.last p (d.prev c) else d.last

/-- A link that is read after the one of another node was written. -/
theorem update_past {links : ℕ → ℕ} {a v : ℕ} (h : a ≠ c) :
    (if a = 0 then links else Function.update links a v) c = links c := by
  split_ifs
  · rfl
  · exact Function.update_of_ne h.symm ..

theorem removeChild_unlinked (hp : p ≠ 0) (hc : c ≠ 0) (hparent : d.parent c = p)
    (hprev : d.prev c ≠ c) : Unlinked (domNodeRemoveChild d p c) d p c := by
  have hne : ¬ (p = 0 ∨ c = 0 ∨ d.parent c ≠ p) := by tauto
  unfold domNodeRemoveChild
  rw [if_neg hne]
  constructor
  · simp [apply_ite Dom.next, apply_ite Dom.prev, apply_ite Dom.last, IsDList.unlinkNext]
  · simp [apply_ite Dom.next, apply_ite Dom.prev, apply_ite Dom.last, IsDList.unlinkPrev]
    rw [update_past hprev]
  · simp [apply_ite Dom.parent]
  · simp [apply_ite Dom.first]
  · simp [apply_ite Dom.last, apply_ite Dom.prev]

/-- The last child after a node was taken out. -/
theorem getLastD_remove {l r : List ℕ} (hnd : (l ++ c :: r).Nodup) :
    (l ++ r).getLastD 0 =
      if (l ++ c :: r).getLastD 0 = c then l.getLastD 0 else (l ++ c :: r).getLastD 0 := by
  rcases List.eq_nil_or_concat r with rfl | ⟨r, w, rfl⟩
  · simp
  · have hw : w ≠ c := by
      rintro rfl
      simp [List.nodup_append] at hnd
    have hlong : l ++ c :: r.concat w = (l ++ c :: r) ++ [w] := by simp
    have hshort : l ++ r.concat w = (l ++ r) ++ [w] := by simp
    rw [hlong, hshort, List.getLastD_concat, List.getLastD_concat, if_neg hw]

/-- Nodes of other lists keep their links. -/
theorem Lists.remove_frame {y : ℕ} (h : Lists d kids) (hp : p ≠ 0) (hc : c ≠ 0)
    (hparent : d.parent c = p) (hy : y ∉ kids p) :
    (domNodeRemoveChild d p c).next y = d.next y ∧
      (domNodeRemoveChild d p c).prev y = d.prev y := by
  have hmem : c ∈ kids p := (h.mem p c hp).mpr ⟨hc, hparent⟩
  have hlist := h.list p hp
  have hu := removeChild_unlinked hp hc hparent (hlist.prev_ne hmem)
  have hyc : y ≠ c := by
    rintro rfl
    exact hy hmem
  rw [hu.next, hu.prev, Function.update_of_ne hyc, Function.update_of_ne hyc]
  exact hlist.unlink_frame hmem hy

/-- The list that the node was on. -/
theorem Lists.remove_self {l r : List ℕ} (h : Lists d kids) (hp : p ≠ 0) (hc : c ≠ 0)
    (hparent : d.parent c = p) (hkids : kids p = l ++ c :: r) :
    IsDList (domNodeRemoveChild d p c).next (domNodeRemoveChild d p c).prev
      ((domNodeRemoveChild d p c).first p) (l ++ r) := by
  have hmem : c ∈ kids p := (h.mem p c hp).mpr ⟨hc, hparent⟩
  have hlist := h.list p hp
  have hu := removeChild_unlinked hp hc hparent (hlist.prev_ne hmem)
  have hnd : (l ++ c :: r).Nodup := hkids ▸ hlist.nodup
  have hfirst : (domNodeRemoveChild d p c).first p =
      IsDList.unlinkHead d.next d.prev (d.first p) c := by
    rw [hu.first, IsDList.unlinkHead]
    have hiff := hlist.prev_eq_zero_iff hmem
    split_ifs with h₁ h₂ h₂
    · exact absurd (hiff.mpr h₁.symm) h₂
    · rw [Function.update_self]
    · rfl
    · exact absurd (hiff.mp (not_not.mp h₂)).symm h₁
  have hne : ∀ y ∈ l ++ r, y ≠ c := by
    rintro y hy rfl
    rw [List.nodup_middle] at hnd
    exact (List.nodup_cons.mp hnd).1 hy
  rw [hfirst]
  apply (IsDList.unlink (hkids ▸ hlist)).congr
  · intro y hy
    rw [hu.next, Function.update_of_ne (hne y hy)]
  · intro y hy
    rw [hu.prev, Function.update_of_ne (hne y hy)]

/-- The lists of other nodes. -/
theorem Lists.remove_other (h : Lists d kids) (hp : p ≠ 0) (hc : c ≠ 0) (hparent : d.parent c = p)
    (hn : n ≠ 0) (hnp : n ≠ p) :
    IsDList (domNodeRemoveChild d p c).next (domNodeRemoveChild d p c).prev
      ((domNodeRemoveChild d p c).first n) (kids n) := by
  have hmem : c ∈ kids p := (h.mem p c hp).mpr ⟨hc, hparent⟩
  have hu := removeChild_unlinked hp hc hparent ((h.list p hp).prev_ne hmem)
  have hfirst : (domNodeRemoveChild d p c).first n = d.first n := by
    rw [hu.first]
    split_ifs
    · exact Function.update_of_ne hnp ..
    · rfl
  rw [hfirst]
  apply (h.list n hn).congr
  · exact fun y hy => (h.remove_frame hp hc hparent (h.disjoint hn hp hnp hy)).1
  · exact fun y hy => (h.remove_frame hp hc hparent (h.disjoint hn hp hnp hy)).2

/-- **Removing a child** takes it out of the list of its parent. -/
theorem Lists.remove (h : Lists d kids) (hp : p ≠ 0) (hc : c ≠ 0) (hparent : d.parent c = p) :
    Lists (domNodeRemoveChild d p c) fun n => (kids n).erase c := by
  have hmem : c ∈ kids p := (h.mem p c hp).mpr ⟨hc, hparent⟩
  have hlist := h.list p hp
  have hu := removeChild_unlinked hp hc hparent (hlist.prev_ne hmem)
  obtain ⟨l, r, hkids⟩ := List.append_of_mem hmem
  have hnd : (l ++ c :: r).Nodup := hkids ▸ hlist.nodup
  have herase : (kids p).erase c = l ++ r := by
    have hcl : c ∉ l := by
      intro hcl
      simp only [List.nodup_append, List.mem_cons] at hnd
      exact hnd.2.2 c hcl c (.inl rfl) rfl
    rw [hkids, List.erase_append_right _ hcl, List.erase_cons_head]
  have hother : ∀ n, n ≠ p → d.parent c ≠ n := fun n hnp heq => hnp (heq.symm.trans hparent)
  constructor
  · intro n hn
    by_cases hnp : n = p
    · rw [hnp, herase]
      exact h.remove_self hp hc hparent hkids
    · rw [h.erase_of_ne hn (hother n hnp)]
      exact h.remove_other hp hc hparent hn hnp
  · intro n hn
    rw [hu.last]
    by_cases hnp : n = p
    · subst hnp
      rw [herase, getLastD_remove hnd, ← hkids, ← h.last n hn]
      split_ifs
      · rw [Function.update_self]
        exact IsDList.prev_mid (hkids ▸ hlist)
      · rfl
    · rw [h.erase_of_ne hn (hother n hnp), ← h.last n hn]
      split_ifs
      · exact Function.update_of_ne hnp ..
      · rfl
  · intro n y hn
    rw [(h.list n hn).nodup.mem_erase_iff, hu.parent, h.mem n y hn]
    by_cases hyc : y = c
    · rw [hyc, Function.update_self]
      simp [hn.symm]
    · rw [Function.update_of_ne hyc]
      simp [hyc]
  · intro y hy
    rw [hu.parent] at hy
    by_cases hyc : y = c
    · rw [hyc, hu.next, hu.prev, Function.update_self, Function.update_self]
      exact ⟨rfl, rfl⟩
    · rw [Function.update_of_ne hyc] at hy
      obtain ⟨hnext, hprev⟩ := h.remove_frame hp hc hparent (h.not_mem hp (hy ▸ hp.symm))
      rw [hnext, hprev]
      exact h.alone y hy

/-! ### Appending -/

/-- The last part of `dom_node_append_child`, for a node without a parent. -/
def linkChild (d : Dom) (parent child : ℕ) : Dom :=
  let d := d.setParent child parent
  if d.first parent = 0 then (d.setFirst parent child).setLast parent child
  else
    let d := d.setNext (d.last parent) child
    let d := d.setPrev child (d.last parent)
    d.setLast parent child

theorem appendChild_eq (d : Dom) (hp : p ≠ 0) (hc : c ≠ 0) : domNodeAppendChild d p c =
    linkChild (if d.parent c ≠ 0 then domNodeRemoveChild d (d.parent c) c else d) p c :=
  if_neg (by tauto)

/-- The links after a node was appended. -/
structure Linked (d' d : Dom) (p c : ℕ) : Prop where
  /-- The forward links. -/
  next : d'.next = if d.first p = 0 then d.next else Function.update d.next (d.last p) c
  /-- The backward links. -/
  prev : d'.prev = if d.first p = 0 then d.prev else Function.update d.prev c (d.last p)
  /-- The parents. -/
  parent : d'.parent = Function.update d.parent c p
  /-- The first children. -/
  first : d'.first = if d.first p = 0 then Function.update d.first p c else d.first
  /-- The last children. -/
  last : d'.last = Function.update d.last p c

theorem linkChild_linked (d : Dom) (p c : ℕ) : Linked (linkChild d p c) d p c := by
  unfold linkChild
  constructor
  · simp [apply_ite Dom.next]
  · simp [apply_ite Dom.prev]
  · simp [apply_ite Dom.parent]
  · simp [apply_ite Dom.first]
  · simp [apply_ite Dom.last]

/-- The list of the new parent. -/
theorem Lists.link_self (h : Lists d kids) (hp : p ≠ 0) (hc : c ≠ 0) (hparent : d.parent c = 0) :
    IsDList (linkChild d p c).next (linkChild d p c).prev ((linkChild d p c).first p)
      (kids p ++ [c]) := by
  have hl := linkChild_linked d p c
  have hlist := h.list p hp
  have hfresh : c ∉ kids p := h.not_mem hp (hparent ▸ hp.symm)
  obtain ⟨hnext₀, hprev₀⟩ := h.alone c hparent
  have hempty : d.first p = 0 ↔ kids p = [] := hlist.seg.eq_nil_iff.symm
  have hfirst : (linkChild d p c).first p = if kids p = [] then c else d.first p := by
    rw [hl.first]
    split_ifs with h₁ h₂ h₂
    · rw [Function.update_self]
    · exact absurd (hempty.mp h₁) h₂
    · exact absurd (hempty.mpr h₂) h₁
    · rfl
  rw [hfirst]
  apply hlist.concat hfresh hc
  · intro y hy
    rw [hl.next, if_neg fun h₀ => List.ne_nil_of_mem hy (hempty.mp h₀), Function.update_apply,
      h.last p hp]
  · rw [hl.next]
    split_ifs with h₀
    · exact hnext₀
    · rw [Function.update_of_ne, hnext₀]
      intro heq
      exact hfresh (heq ▸ h.last_mem hp h₀)
  · rw [hl.prev]
    split_ifs with h₀
    · rw [hprev₀, hempty.mp h₀]
      rfl
    · rw [Function.update_self, h.last p hp]
  · intro y hy
    rw [hl.prev, if_neg fun h₀ => List.ne_nil_of_mem hy (hempty.mp h₀), Function.update_of_ne]
    exact fun heq => hfresh (heq ▸ hy)

/-- Nodes of other lists keep their links. -/
theorem Lists.link_frame {y : ℕ} (h : Lists d kids) (hp : p ≠ 0) (hy : y ∉ kids p) (hyc : y ≠ c) :
    (linkChild d p c).next y = d.next y ∧ (linkChild d p c).prev y = d.prev y := by
  have hl := linkChild_linked d p c
  rw [hl.next, hl.prev]
  split_ifs with h₀
  · exact ⟨rfl, rfl⟩
  · have hlast : y ≠ d.last p := fun heq => hy (heq ▸ h.last_mem hp h₀)
    exact ⟨Function.update_of_ne hlast .., Function.update_of_ne hyc ..⟩

/-- The lists of other nodes. -/
theorem Lists.link_other (h : Lists d kids) (hp : p ≠ 0) (hparent : d.parent c = 0) (hn : n ≠ 0)
    (hnp : n ≠ p) :
    IsDList (linkChild d p c).next (linkChild d p c).prev ((linkChild d p c).first n)
      (kids n) := by
  have hfirst : (linkChild d p c).first n = d.first n := by
    rw [(linkChild_linked d p c).first]
    split_ifs
    · exact Function.update_of_ne hnp ..
    · rfl
  have hframe : ∀ y ∈ kids n,
      (linkChild d p c).next y = d.next y ∧ (linkChild d p c).prev y = d.prev y := by
    intro y hy
    apply h.link_frame hp (h.disjoint hn hp hnp hy)
    rintro rfl
    exact h.not_mem hn (hparent ▸ hn.symm) hy
  rw [hfirst]
  exact (h.list n hn).congr (fun y hy => (hframe y hy).1) fun y hy => (hframe y hy).2

/-- **A node without a parent** becomes the last child. -/
theorem Lists.link (h : Lists d kids) (hp : p ≠ 0) (hc : c ≠ 0) (hparent : d.parent c = 0) :
    Lists (linkChild d p c) (Function.update kids p (kids p ++ [c])) := by
  have hl := linkChild_linked d p c
  have hfresh : ∀ n, n ≠ 0 → c ∉ kids n := fun n hn => h.not_mem hn (hparent ▸ hn.symm)
  constructor
  · intro n hn
    by_cases hnp : n = p
    · rw [hnp, Function.update_self]
      exact h.link_self hp hc hparent
    · rw [Function.update_of_ne hnp]
      exact h.link_other hp hparent hn hnp
  · intro n hn
    rw [hl.last]
    by_cases hnp : n = p
    · rw [hnp, Function.update_self, Function.update_self, List.getLastD_concat]
    · rw [Function.update_of_ne hnp, Function.update_of_ne hnp]
      exact h.last n hn
  · intro n y hn
    rw [hl.parent]
    by_cases hyc : y = c
    · subst hyc
      rw [Function.update_self]
      by_cases hnp : n = p
      · rw [hnp, Function.update_self]
        simp [hc]
      · rw [Function.update_of_ne hnp]
        exact iff_of_false (hfresh n hn) fun hand => hnp hand.2.symm
    · rw [Function.update_of_ne hyc, ← h.mem n y hn]
      by_cases hnp : n = p
      · rw [hnp, Function.update_self]
        simp [hyc]
      · rw [Function.update_of_ne hnp]
  · intro y hy
    rw [hl.parent] at hy
    have hyc : y ≠ c := by
      rintro rfl
      rw [Function.update_self] at hy
      exact hp hy
    rw [Function.update_of_ne hyc] at hy
    obtain ⟨hnext, hprev⟩ := h.link_frame hp (h.not_mem hp (hy ▸ hp.symm)) hyc
    rw [hnext, hprev]
    exact h.alone y hy

/-- The lists of other nodes than `NULL` are the ones that matter. -/
theorem Lists.of_eq {kids' : ℕ → List ℕ} (h : Lists d kids) (heq : ∀ n, n ≠ 0 → kids' n = kids n) :
    Lists d kids' where
  list n hn := heq n hn ▸ h.list n hn
  last n hn := heq n hn ▸ h.last n hn
  mem n c hn := heq n hn ▸ h.mem n c hn
  alone := h.alone

/-- **Appending a child** moves it to the end of the list of its new parent. -/
theorem Lists.append (h : Lists d kids) (hp : p ≠ 0) (hc : c ≠ 0) :
    Lists (domNodeAppendChild d p c)
      fun n => if n = p then (kids p).erase c ++ [c] else (kids n).erase c := by
  have hremoved : Lists (if d.parent c ≠ 0 then domNodeRemoveChild d (d.parent c) c else d)
      fun n => (kids n).erase c := by
    split_ifs with hparent
    · exact h.remove hparent hc rfl
    · apply h.of_eq
      intro n hn
      exact h.erase_of_ne hn fun heq => hparent (heq ▸ hn)
  have halone : (if d.parent c ≠ 0 then domNodeRemoveChild d (d.parent c) c else d).parent c =
      0 := by
    split_ifs with hparent
    · have hmem : c ∈ kids (d.parent c) := (h.mem _ c hparent).mpr ⟨hc, rfl⟩
      have hu := removeChild_unlinked hparent hc rfl ((h.list _ hparent).prev_ne hmem)
      rw [hu.parent, Function.update_self]
    · exact not_not.mp hparent
  rw [appendChild_eq d hp hc]
  apply (hremoved.link hp hc halone).of_eq
  intro n _
  rw [Function.update_apply]

/-! ### Runs -/

/-- A call. -/
inductive DomCall where
  /-- `dom_node_create(type)`. -/
  | create (type : DomNodeType)
  /-- `dom_element_create(tag_name)`. -/
  | createElement (tagName : Option Str)
  /-- `dom_text_create(data)`. -/
  | createText (data : Option Str)
  /-- `dom_node_append_child(parent, child)`. -/
  | append (parent child : ℕ)
  /-- `dom_node_remove_child(parent, child)`. -/
  | remove (parent child : ℕ)

/-- A node that was made. -/
def Created (d : Dom) (n : ℕ) : Prop := n ≠ 0 ∧ n ≤ d.count

instance : Decidable (Created d n) := inferInstanceAs (Decidable (_ ∧ _))

/-- A call on nodes that were made. -/
def domStep (d : Dom) : DomCall → Option Dom
  | .create type => some (domNodeCreate d type).1
  | .createElement tagName => some (domElementCreate d tagName).1
  | .createText data => some (domTextCreate d data).1
  | .append parent child =>
    if Created d parent ∧ Created d child then some (domNodeAppendChild d parent child) else none
  | .remove parent child =>
    if Created d parent ∧ Created d child then some (domNodeRemoveChild d parent child) else none

/-- The list of the children of a node, read from the first one on. -/
def ChildList (d : Dom) (n : ℕ) (xs : List ℕ) : Prop := Seg d.next (d.first n) xs 0

/-- Every list ends, has no node twice, is the reverse of the one read from the last child on,
and has the nodes whose parent the node is. -/
def ListsInOrder (d : Dom) : Prop :=
  ∀ n, Created d n → ∃ xs, ChildList d n xs ∧ xs.Nodup ∧ Seg d.prev (d.last n) xs.reverse 0 ∧
    ∀ c, c ∈ xs ↔ Created d c ∧ d.parent c = n

/-- Appending puts the child behind the others of its new parent, takes it out of the list of
its former parent, and leaves the other lists as they were. -/
def Moved (d : Dom) : DomCall → Dom → Prop
  | .append p c, d' => ∀ n xs, Created d n → ChildList d n xs →
      ChildList d' n
        (if n = p then xs.erase c ++ [c] else if n = d.parent c then xs.erase c else xs)
  | _, _ => True

/-- The invariant of a run: the lists are in order, and nodes that were not made yet have no
parent and no children. -/
structure DomInv (d : Dom) : Prop where
  /-- The lists. -/
  lists : ∃ kids, Lists d kids
  /-- A node that was not made yet has no parent. -/
  unused : ∀ c, d.count < c → d.parent c = 0
  /-- A node that was not made yet is no parent. -/
  parents : ∀ c, d.parent c ≤ d.count

/-- The list of a node is the one of the invariant. -/
theorem Lists.childList_iff (h : Lists d kids) (hn : n ≠ 0) {xs : List ℕ} :
    ChildList d n xs ↔ xs = kids n := by
  constructor
  · intro hxs
    exact Seg.unique hxs (h.list n hn).seg
  · rintro rfl
    exact (h.list n hn).seg

/-- The invariant says that the lists are in order. -/
theorem DomInv.inOrder (h : DomInv d) : ListsInOrder d := by
  obtain ⟨kids, hk⟩ := h.lists
  intro n hn
  refine ⟨kids n, (hk.list n hn.1).seg, (hk.list n hn.1).nodup, ?_, ?_⟩
  · rw [hk.last n hn.1]
    exact (hk.list n hn.1).seg_reverse
  · intro c
    rw [hk.mem n c hn.1]
    constructor
    · rintro ⟨hc, hparent⟩
      refine ⟨⟨hc, ?_⟩, hparent⟩
      by_contra hlate
      exact hn.1 (hparent.symm.trans (h.unused c (not_le.mp hlate)))
    · rintro ⟨hc, hparent⟩
      exact ⟨hc.1, hparent⟩

/-- No list is there before the first node. -/
theorem noNodes_inv : DomInv noNodes where
  lists := by
    refine ⟨fun _ => [], fun _ _ => .nil, fun _ _ => rfl, ?_, fun _ _ => ⟨rfl, rfl⟩⟩
    intro n c hn
    simp only [List.not_mem_nil, false_iff, not_and]
    exact fun _ heq => hn heq.symm
  unused _ _ := rfl
  parents _ := le_rfl

/-- **A new node** without links is on no list, and has none. -/
theorem DomInv.lists_add (h : DomInv d) (hk : Lists d kids) {node : DomNode} (hnode : Loose node) :
    Lists (d.add node) kids ∧ kids d.fresh = [] ∧ (d.add node).parent = d.parent := by
  have hlate : d.count < d.fresh := Nat.lt_succ_self _
  have hfresh : d.fresh ≠ 0 := Nat.succ_ne_zero _
  have hparent₀ := h.unused _ hlate
  obtain ⟨hnext₀, hprev₀⟩ := hk.alone _ hparent₀
  have hkids : kids d.fresh = [] := by
    apply List.eq_nil_iff_forall_not_mem.mpr
    intro c hc
    exact (lt_of_le_of_lt (h.parents c) hlate).ne ((hk.mem _ c hfresh).mp hc).2
  have hfirst₀ : d.first d.fresh = 0 := (hk.list _ hfresh).seg.eq_nil_iff.mp hkids
  have hlast₀ : d.last d.fresh = 0 := by
    rw [hk.last _ hfresh, hkids]
    rfl
  -- the memory of the new node was clear before
  have hread : ∀ g : DomNode → ℕ, g node = 0 → g (d.nodes d.fresh) = 0 →
      ∀ m, g ((d.add node).nodes m) = g (d.nodes m) := by
    intro g hg hg₀ m
    by_cases hm : m = d.fresh
    · rw [hm, Dom.add_fresh, hg, hg₀]
    · rw [Dom.add_of_ne d node hm]
  have hpar : (d.add node).parent = d.parent :=
    funext (hread DomNode.parent hnode.parent hparent₀)
  have hfst : (d.add node).first = d.first :=
    funext (hread DomNode.firstChild hnode.first hfirst₀)
  have hlst : (d.add node).last = d.last := funext (hread DomNode.lastChild hnode.last hlast₀)
  have hprv : (d.add node).prev = d.prev := funext (hread DomNode.prevSibling hnode.prev hprev₀)
  have hnxt : (d.add node).next = d.next := funext (hread DomNode.nextSibling hnode.next hnext₀)
  refine ⟨⟨?_, ?_, ?_, ?_⟩, hkids, hpar⟩
  · rw [hnxt, hprv, hfst]
    exact hk.list
  · rw [hlst]
    exact hk.last
  · rw [hpar]
    exact hk.mem
  · rw [hpar, hnxt, hprv]
    exact hk.alone

/-- A new node keeps the invariant. -/
theorem DomInv.add (h : DomInv d) {node : DomNode} (hnode : Loose node) :
    DomInv (d.add node) := by
  obtain ⟨kids, hk⟩ := h.lists
  obtain ⟨hlists, -, hparent⟩ := h.lists_add hk hnode
  refine ⟨⟨kids, hlists⟩, fun c hc => ?_, fun c => ?_⟩
  · rw [hparent]
    exact h.unused c ((Nat.lt_succ_self _).trans hc)
  · rw [hparent]
    exact (h.parents c).trans (Nat.le_succ _)

theorem removeChild_count (d : Dom) (p c : ℕ) : (domNodeRemoveChild d p c).count = d.count := by
  unfold domNodeRemoveChild
  simp [apply_ite Dom.count]

theorem appendChild_count (d : Dom) (p c : ℕ) : (domNodeAppendChild d p c).count = d.count := by
  unfold domNodeAppendChild
  simp [apply_ite Dom.count, removeChild_count]

theorem removeChild_content (d : Dom) (p c : ℕ) :
    (domNodeRemoveChild d p c).content = d.content := by
  unfold domNodeRemoveChild
  simp [apply_ite Dom.content]

/-- Only links change when a node is appended. -/
theorem appendChild_content (d : Dom) (p c : ℕ) :
    (domNodeAppendChild d p c).content = d.content := by
  unfold domNodeAppendChild
  simp [apply_ite Dom.content, removeChild_content]

/-- Removing changes no other parent than that of the child. -/
theorem removeChild_parent (d : Dom) (p c : ℕ) : (domNodeRemoveChild d p c).parent =
    if p = 0 ∨ c = 0 ∨ d.parent c ≠ p then d.parent else Function.update d.parent c 0 := by
  unfold domNodeRemoveChild
  simp [apply_ite Dom.parent]

/-- Appending changes no other parent than that of the child. -/
theorem appendChild_parent (d : Dom) (hp : p ≠ 0) (hc : c ≠ 0) :
    (domNodeAppendChild d p c).parent = Function.update d.parent c p := by
  rw [appendChild_eq d hp hc, (linkChild_linked _ p c).parent]
  split_ifs
  · rw [removeChild_parent]
    split_ifs
    · rfl
    · rw [Function.update_idem]
  · rfl

/-- **Removing** keeps the invariant. -/
theorem DomInv.remove (h : DomInv d) (p c : ℕ) : DomInv (domNodeRemoveChild d p c) := by
  by_cases hnone : p = 0 ∨ c = 0 ∨ d.parent c ≠ p
  · rw [domNodeRemoveChild, if_pos hnone]
    exact h
  · have hparent := removeChild_parent d p c
    rw [if_neg hnone] at hparent
    simp only [not_or, not_not] at hnone
    obtain ⟨kids, hk⟩ := h.lists
    refine ⟨⟨_, hk.remove hnone.1 hnone.2.1 hnone.2.2⟩, fun m hm => ?_, fun m => ?_⟩
    · rw [removeChild_count] at hm
      rw [hparent, Function.update_apply, h.unused m hm, ite_self]
    · rw [removeChild_count, hparent, Function.update_apply]
      split_ifs
      · exact Nat.zero_le _
      · exact h.parents m

/-- **Appending** keeps the invariant. -/
theorem DomInv.append (h : DomInv d) (hp : Created d p) (hc : Created d c) :
    DomInv (domNodeAppendChild d p c) := by
  obtain ⟨kids, hk⟩ := h.lists
  have hparent := appendChild_parent d hp.1 hc.1
  refine ⟨⟨_, hk.append hp.1 hc.1⟩, fun m hm => ?_, fun m => ?_⟩
  · rw [appendChild_count] at hm
    rw [hparent, Function.update_of_ne]
    · exact h.unused m hm
    · rintro rfl
      exact absurd hc.2 (not_le.mpr hm)
  · rw [appendChild_count, hparent, Function.update_apply]
    split_ifs
    · exact hp.2
    · exact h.parents m

/-- **Every call** keeps the invariant and moves what it says. -/
theorem DomInv.step (h : DomInv d) {call : DomCall} (hstep : domStep d call = some d') :
    DomInv d' ∧ Moved d call d' := by
  cases call with
  | create type =>
    cases hstep
    exact ⟨h.add ⟨rfl, rfl, rfl, rfl, rfl⟩, trivial⟩
  | createElement tagName =>
    cases hstep
    exact ⟨h.add ⟨rfl, rfl, rfl, rfl, rfl⟩, trivial⟩
  | createText data =>
    cases hstep
    exact ⟨h.add ⟨rfl, rfl, rfl, rfl, rfl⟩, trivial⟩
  | append p c =>
    obtain ⟨⟨hp, hc⟩, heq⟩ := Option.ite_none_right_eq_some.mp hstep
    cases heq
    refine ⟨h.append hp hc, ?_⟩
    intro n xs hn hxs
    obtain ⟨kids, hk⟩ := h.lists
    rw [(hk.append hp.1 hc.1).childList_iff hn.1]
    rw [hk.childList_iff hn.1] at hxs
    subst hxs
    by_cases hnp : n = p
    · rw [if_pos hnp, if_pos hnp, hnp]
    · rw [if_neg hnp, if_neg hnp]
      split_ifs with hold
      · rfl
      · exact (hk.erase_of_ne hn.1 (Ne.symm hold)).symm
  | remove p c =>
    obtain ⟨-, heq⟩ := Option.ite_none_right_eq_some.mp hstep
    cases heq
    exact ⟨h.remove p c, trivial⟩

/-- After every run of calls the invariant holds. -/
theorem run_inv {calls : List DomCall} (hrun : run domStep noNodes calls = some d) : DomInv d := by
  apply Always.of_run (always_of_step _ noNodes_inv) hrun
  exact fun d call d' h hs => (h.step hs).1

/-- **The lists of children.** On nodes that were made, appending and removing keep every list
of children in order, and appending moves the child to the end of the list of its new parent
and takes it from that of its former parent. -/
theorem sibling_lists (calls : List DomCall) :
    Always domStep ListsInOrder noNodes calls ∧ Along domStep Moved noNodes calls := by
  have hstep : ∀ d call d', DomInv d → domStep d call = some d' → DomInv d' ∧ Moved d call d' :=
    fun d call d' h hs => h.step hs
  constructor
  · apply Always.mono (fun d (h : DomInv d) => h.inOrder)
    exact always_of_step (fun d call d' h hs => (hstep d call d' h hs).1) noNodes_inv
  · exact along_of_step hstep noNodes_inv

end PrismaticOS.Html
