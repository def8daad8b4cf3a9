import Mathlib.Data.Finset.Card
import PrismaticOS.Html.Destroy
import PrismaticOS.Html.IdSearch
import PrismaticOS.Library.ParentPointers

/-!
# The tree of nodes

`dom_node_append_child` does not look whether the child is above its new parent. Then the two are
above each other, and a search below them does not end.

## What is proved

* `DomTree.step` — every other call keeps the nodes a forest.
* `DomTree.hangs` — below every node there is a forest then.
* `dom_forest_iff` — the nodes are a forest in every state of a run exactly if no child is appended
  to itself or to a node below it.
-/

namespace PrismaticOS.Html

open PrismaticOS.Library PrismaticOS.Libc

variable {d d' : Dom} {n p c : ℕ} {kids : ℕ → List ℕ}

/-- The parents of every node lead to a node without a parent and never back to the node, and a
search below it and its destruction end. -/
def IsForest (d : Dom) : Prop :=
  ∀ n, Created d n → HasRoot d.parent n ∧ ¬ LeadsTo d.parent (d.parent n) n ∧
    (∀ id, ∃ fuel, (domNodeGetElementByIdRecursive d id fuel n).isSome) ∧
    ∀ s : RefDom, s.dom = d → ∃ fuel, (domNodeDestroy fuel s n).isSome

/-- A node is not appended to itself, or to a node below it. -/
def NotBelowItself (d : Dom) : DomCall → Prop
  | .append parent child => ¬ LeadsTo d.parent parent child
  | _ => True

/-- The invariant of a run. -/
structure DomTree (d : Dom) : Prop where
  /-- The lists of children. -/
  inv : DomInv d
  /-- `NULL` has no parent. -/
  null : d.parent 0 = 0
  /-- Every node has a root. -/
  roots : ∀ n, HasRoot d.parent n

/-! ### Below a node there is a forest -/

/-- The nodes below a node, and the node. -/
noncomputable def descendants (d : Dom) (n : ℕ) : Finset ℕ := by
  classical exact (Finset.range (d.count + 1)).filter fun m => LeadsTo d.parent m n

theorem DomTree.not_above_itself (h : DomTree d) (hn : n ≠ 0) :
    ¬ LeadsTo d.parent (d.parent n) n :=
  fun hloop => not_hasRoot_of_loop h.null hn hloop (h.roots n)

/-- A child has fewer nodes below it. -/
theorem DomTree.descendants_lt (h : DomTree d) (hn : Created d n) (hc : c ≠ 0)
    (hparent : d.parent c = n) : (descendants d c).card < (descendants d n).card := by
  classical
  have hup : LeadsTo d.parent c n := .single hparent
  apply Finset.card_lt_card
  rw [Finset.ssubset_iff_of_subset]
  · refine ⟨n, ?_, ?_⟩
    · simp only [descendants, Finset.mem_filter, Finset.mem_range]
      exact ⟨Nat.lt_succ_of_le hn.2, .refl⟩
    · simp only [descendants, Finset.mem_filter, not_and]
      intro _ hback
      rw [← hparent] at hback
      exact h.not_above_itself hc hback
  · intro m
    simp only [descendants, Finset.mem_filter]
    exact fun ⟨hm, hleads⟩ => ⟨hm, hleads.trans hup⟩

/-- The links of the nodes. -/
def Dom.links (d : Dom) : Links ℕ := ⟨d.next, d.prev, d.first, d.parent⟩

/-- **Below every node** there is a forest. -/
theorem DomTree.hangs (h : DomTree d) (hn : Created d n) :
    ∃ f, Hangs d.links n 0 (d.first n) f := by
  induction hm : (descendants d n).card using Nat.strong_induction_on generalizing n with
  | _ m ih =>
  obtain ⟨kids, hk⟩ := h.inv.lists
  have hlist := hk.list n hn.1
  have hkid : ∀ c ∈ kids n, c ≠ 0 ∧ d.parent c = n := fun c => (hk.mem n c hn.1).mp
  apply Hangs.of_list (l := d.links) hlist.seg hlist.back fun c hc => (hkid c hc).2
  intro c hc
  obtain ⟨hne, hparent⟩ := hkid c hc
  have hcreated : Created d c := by
    refine ⟨hne, ?_⟩
    by_contra hlate
    exact hn.1 (hparent.symm.trans (h.inv.unused c (not_le.mp hlate)))
  exact ih _ (hm ▸ h.descendants_lt hn hne hparent) hcreated rfl

theorem DomTree.threads (h : DomTree d) (hn : Created d n) :
    ∃ f, Threads d.next d.first (d.first n) f := by
  obtain ⟨f, hf⟩ := h.hangs hn
  exact ⟨f, hf.threads⟩

theorem DomTree.isForest (h : DomTree d) : IsForest d := by
  intro n hn
  refine ⟨h.roots n, h.not_above_itself hn.1, fun id => ?_, ?_⟩
  · obtain ⟨f, hf⟩ := h.threads hn
    have hchildren : searchChildren d id (2 * f.nodes.length + 1) (d.first n) =
        some (firstWithId d id f.nodes) := searchChildren_threads hf le_rfl
    exact ⟨_, Option.isSome_of_eq_some (search_root hn.1 hchildren)⟩
  · rintro s rfl
    obtain ⟨kids, hk⟩ := h.inv.lists
    obtain ⟨s', hdestroy, -⟩ := destroy_ends hk hn.1 h.inv.unused
    exact ⟨_, Option.isSome_of_eq_some hdestroy⟩

/-! ### Runs -/

theorem noNodes_tree : DomTree noNodes where
  inv := noNodes_inv
  null := rfl
  roots n := ⟨n, .refl, rfl⟩

theorem DomTree.add (h : DomTree d) {node : DomNode} (hnode : Loose node) :
    DomTree (d.add node) := by
  obtain ⟨kids, hk⟩ := h.inv.lists
  obtain ⟨-, -, hparent⟩ := h.inv.lists_add hk hnode
  refine ⟨h.inv.add hnode, ?_, ?_⟩
  · rw [hparent]
    exact h.null
  · rw [hparent]
    exact h.roots

/-- **Every call** keeps the forest, unless a child is appended below itself. -/
theorem DomTree.step (h : DomTree d) {call : DomCall} (hok : NotBelowItself d call)
    (hstep : domStep d call = some d') : DomTree d' := by
  cases call with
  | create type =>
    cases hstep
    exact h.add ⟨rfl, rfl, rfl, rfl, rfl⟩
  | createElement tagName =>
    cases hstep
    exact h.add ⟨rfl, rfl, rfl, rfl, rfl⟩
  | createText data =>
    cases hstep
    exact h.add ⟨rfl, rfl, rfl, rfl, rfl⟩
  | append p c =>
    obtain ⟨⟨hp, hc⟩, heq⟩ := Option.ite_none_right_eq_some.mp hstep
    cases heq
    refine ⟨h.inv.append hp hc, ?_, ?_⟩
    · rw [appendChild_parent d hp.1 hc.1, Function.update_of_ne hc.1.symm, h.null]
    · rw [appendChild_parent d hp.1 hc.1]
      exact fun n => (h.roots n).link (h.roots p) hok
  | remove p c =>
    obtain ⟨⟨hp, hc⟩, heq⟩ := Option.ite_none_right_eq_some.mp hstep
    cases heq
    have hparent := removeChild_parent d p c
    refine ⟨h.inv.remove p c, ?_, ?_⟩
    · rw [hparent]
      split_ifs
      · exact h.null
      · rw [Function.update_of_ne hc.1.symm, h.null]
    · rw [hparent]
      split_ifs
      · exact h.roots
      · exact fun n => (h.roots n).cut c

/-- A child appended below itself is above itself. -/
theorem append_loop (hp : Created d p) (hc : Created d c) (hloop : LeadsTo d.parent p c) :
    ¬ IsForest (domNodeAppendChild d p c) := by
  intro h
  have hcreated : Created (domNodeAppendChild d p c) c := by
    rw [Created, appendChild_count]
    exact hc
  obtain ⟨-, hno, -⟩ := h c hcreated
  rw [appendChild_parent d hp.1 hc.1, Function.update_self] at hno
  exact hno (hloop.update p)

/-- **The forest of nodes.** In a run of calls on nodes that were made, the nodes are a forest in
every state exactly if each time a child is appended, it is neither the parent nor above it. -/
theorem dom_forest_iff (calls : List DomCall) :
    Always domStep IsForest noNodes calls ↔ Each domStep NotBelowItself noNodes calls := by
  apply always_iff_each
  · exact fun d (h : DomTree d) => h.isForest
  · exact fun d call d' h hok hs => h.step hok hs
  · intro d call d' h hno hs
    cases call with
    | append p c =>
      obtain ⟨⟨hp, hc⟩, heq⟩ := Option.ite_none_right_eq_some.mp hs
      cases heq
      exact append_loop hp hc (not_not.mp hno)
    | create type => exact absurd trivial hno
    | createElement tagName => exact absurd trivial hno
    | createText data => exact absurd trivial hno
    | remove p c => exact absurd trivial hno
  · exact noNodes_tree

/-- Two nodes can be appended to each other. -/
theorem mutual_parents : ¬ ∀ calls, Always domStep IsForest noNodes calls := by
  intro h
  have hforest := Always.of_run
    (h [.createElement none, .createElement none, .append 1 2, .append 2 1]) rfl
  refine append_loop ?_ ?_ (.single ?_) hforest
  · decide
  · decide
  · rfl

end PrismaticOS.Html
