import PrismaticOS.Library.LinkedList
import PrismaticOS.Library.ParentPointers

/-!
# Forests in memory

Trees as C programs keep them that give every node a pointer to its parent, one to its first
child, and the links of a doubly linked list of the children. A `Forest` is a list of siblings
with what is below each of them, and `Hangs l parent before head f` says that it is in memory: the
links lead from `head` through its roots, back to `before`, and up to `parent`.

## What is proved

* `Hangs.relink` — a forest depends on the links of its own nodes, and on what is before it in the
  link of the first one only.
* `Hangs.list` — its roots are a doubly linked list.
* `Hangs.below` — what is below a root is a forest of its own, apart from the roots.
* `Forest.detach_some` — the first tree whose root has a property, and the forest without it.
* `Hangs.of_list` — a list of nodes with forests below them is a forest.
* `Hangs.nodup` — where every node has a root, no node is in a forest twice.
* `Threads.below` — the same where the links lead forwards only (`Threads`), below any node.
-/

namespace PrismaticOS.Library

/-- A list of siblings, each with the forest below it. -/
inductive Forest (α : Type*) where
  /-- No siblings. -/
  | nil
  /-- The first of them, what is below it, and those after it. -/
  | tree (root : α) (below after : Forest α)

namespace Forest

variable {α : Type*}

/-- The siblings. -/
def roots : Forest α → List α
  | nil => []
  | tree root _ after => root :: after.roots

/-- All nodes. -/
def nodes : Forest α → List α
  | nil => []
  | tree root below after => root :: (below.nodes ++ after.nodes)

/-- The nodes of the first tree. -/
def firstTree : Forest α → List α
  | nil => []
  | tree root below _ => root :: below.nodes

/-- The first tree comes first. -/
theorem firstTree_prefix (f : Forest α) : f.firstTree <+: f.nodes := by
  cases f with
  | nil => exact List.prefix_rfl
  | tree root below after => exact List.prefix_append (root :: below.nodes) after.nodes

theorem roots_subset (f : Forest α) : f.roots ⊆ f.nodes := by
  induction f with
  | nil => exact List.Subset.refl _
  | tree root below after _ ih =>
    exact List.cons_subset_cons root (List.Subset.trans ih (List.subset_append_right _ _))

/-- The first root with the property, what is below it, and the forest without this tree. -/
def detach (p : α → Bool) : Forest α → Option (α × Forest α × Forest α)
  | nil => none
  | tree root below after =>
    if p root then some (root, below, after)
    else (after.detach p).map fun (c, below', rest) => (c, below', tree root below rest)

variable {p : α → Bool} {f below rest : Forest α} {c : α}

/-- The first root has the property. -/
theorem detach_root {root : α} (h : p root = true) (below after : Forest α) :
    (tree root below after).detach p = some (root, below, after) := by
  rw [detach, if_pos h]

/-- The first root does not have the property. -/
theorem detach_other {root : α} (h : p root = false) (below after : Forest α) :
    (tree root below after).detach p =
      (after.detach p).map fun (c, below', rest) => (c, below', tree root below rest) := by
  rw [detach, h]
  rfl

theorem detach_none : f.detach p = none ↔ ∀ c ∈ f.roots, p c = false := by
  induction f with
  | nil => exact iff_of_true rfl nofun
  | tree root below after _ ih =>
    rw [roots, List.forall_mem_cons]
    cases hp : p root with
    | true =>
      rw [detach_root hp]
      exact iff_of_false (Option.some_ne_none _) fun h => Bool.noConfusion h.1
    | false =>
      rw [detach_other hp, Option.map_eq_none_iff, ih]
      exact (and_iff_right rfl).symm

/-- **The tree that is detached**: its root is the first one with the property, and its nodes and
those of the rest are all nodes. -/
theorem detach_some (h : f.detach p = some (c, below, rest)) :
    p c = true ∧ c ∈ f.roots ∧ rest.roots = f.roots.eraseP p ∧
      f.nodes.Perm (c :: below.nodes ++ rest.nodes) := by
  induction f generalizing c below rest with
  | nil => cases h
  | tree root below₀ after _ ih =>
    cases hp : p root with
    | true =>
      rw [detach_root hp] at h
      obtain ⟨rfl, rfl, rfl⟩ := h
      exact ⟨hp, List.mem_cons_self, (List.eraseP_cons_of_pos hp).symm, .refl _⟩
    | false =>
      rw [detach_other hp] at h
      obtain ⟨⟨c', below', rest'⟩, hdetach, heq⟩ := Option.map_eq_some_iff.mp h
      obtain ⟨rfl, rfl, rfl⟩ := heq
      obtain ⟨hpc, hc, hroots, hperm⟩ := ih hdetach
      refine ⟨hpc, List.mem_cons_of_mem root hc, ?_, ?_⟩
      · rw [roots, roots, List.eraseP_cons_of_neg (by rw [hp]; nofun), hroots]
      · have hinner := (hperm.append_left below₀.nodes).trans (List.perm_append_comm_assoc ..)
        exact (hinner.cons root).trans List.perm_middle.symm

end Forest

/-- The links of the nodes. -/
structure Links (α : Type*) where
  /-- The next sibling. -/
  next : α → α
  /-- The sibling before. -/
  prev : α → α
  /-- The first child. -/
  first : α → α
  /-- The parent. -/
  up : α → α

variable {α : Type*} [Zero α]

/-- The forest is in memory: from `head` on, after `before`, below `parent`. -/
def Hangs (l : Links α) (parent : α) : (before head : α) → Forest α → Prop
  | _, head, .nil => head = 0
  | before, head, .tree root below after =>
    head = root ∧ root ≠ 0 ∧ l.prev root = before ∧ l.up root = parent ∧
      Hangs l root 0 (l.first root) below ∧ Hangs l parent root (l.next root) after

namespace Hangs

variable {l l' : Links α} {parent before before' head c x : α} {f : Forest α}

theorem ne_zero (h : Hangs l parent before head f) (hx : x ∈ f.nodes) : x ≠ 0 := by
  induction f generalizing parent before head with
  | nil => cases hx
  | tree root below after ihb iha =>
    obtain ⟨-, hroot, -, -, hbelow, hafter⟩ := h
    rcases List.mem_cons.mp hx with rfl | hx
    · exact hroot
    rcases List.mem_append.mp hx with hx | hx
    · exact ihb hbelow hx
    · exact iha hafter hx

/-- The head is one of the nodes, or `NULL`. -/
theorem head_mem (h : Hangs l parent before head f) (hhead : head ≠ 0) : head ∈ f.roots := by
  cases f with
  | nil => exact absurd h hhead
  | tree root below after => exact h.1 ▸ List.mem_cons_self

/-- A forest depends on the links of its own nodes only. -/
theorem congr (h : Hangs l parent before head f)
    (hsame : ∀ q ∈ f.nodes, l'.next q = l.next q ∧ l'.prev q = l.prev q ∧
      l'.first q = l.first q ∧ l'.up q = l.up q) :
    Hangs l' parent before head f := by
  induction f generalizing parent before head with
  | nil => exact h
  | tree root below after ihb iha =>
    obtain ⟨hhead, hroot, hp, hu, hbelow, hafter⟩ := h
    obtain ⟨hnext, hprev, hfirst, hup⟩ := hsame root List.mem_cons_self
    refine ⟨hhead, hroot, hprev.trans hp, hup.trans hu, ?_, ?_⟩
    · rw [hfirst]
      exact ihb hbelow fun q hq => hsame q (List.mem_cons_of_mem root (List.mem_append_left _ hq))
    · rw [hnext]
      exact iha hafter fun q hq => hsame q (List.mem_cons_of_mem root (List.mem_append_right _ hq))

/-- What is before a forest is in the link of its first root only. -/
theorem relink [DecidableEq α] (h : Hangs l parent before head f) (hnd : f.nodes.Nodup)
    (hsame : ∀ q ∈ f.nodes, l'.next q = l.next q ∧
      l'.prev q = (if q = head then before' else l.prev q) ∧ l'.first q = l.first q ∧
        l'.up q = l.up q) :
    Hangs l' parent before' head f := by
  cases f with
  | nil => exact h
  | tree root below after =>
    obtain ⟨rfl, hroot, -, hu, hbelow, hafter⟩ := h
    obtain ⟨hnotin, -⟩ := List.nodup_cons.mp hnd
    obtain ⟨hnext, hprev, hfirst, hup⟩ := hsame head List.mem_cons_self
    rw [if_pos rfl] at hprev
    have hrest : ∀ q ∈ below.nodes ++ after.nodes, l'.next q = l.next q ∧ l'.prev q = l.prev q ∧
        l'.first q = l.first q ∧ l'.up q = l.up q := by
      intro q hq
      obtain ⟨h₁, h₂, h₃, h₄⟩ := hsame q (List.mem_cons_of_mem head hq)
      rw [if_neg] at h₂
      · exact ⟨h₁, h₂, h₃, h₄⟩
      · rintro rfl
        exact hnotin hq
    refine ⟨rfl, hroot, hprev, hup.trans hu, ?_, ?_⟩
    · rw [hfirst]
      exact hbelow.congr fun q hq => hrest q (List.mem_append_left _ hq)
    · rw [hnext]
      exact hafter.congr fun q hq => hrest q (List.mem_append_right _ hq)

/-- The roots are linked to each other. -/
theorem seg_back (h : Hangs l parent before head f) :
    Seg l.next head f.roots 0 ∧ Back l.prev before f.roots := by
  induction f generalizing before head with
  | nil => exact ⟨h, trivial⟩
  | tree root below after _ ih =>
    obtain ⟨hhead, hroot, hp, -, -, hafter⟩ := h
    obtain ⟨hseg, hback⟩ := ih hafter
    exact ⟨⟨hhead, hroot, hseg⟩, hp, hback⟩

/-- **The roots** are a doubly linked list. -/
theorem list (h : Hangs l parent 0 head f) : IsDList l.next l.prev head f.roots :=
  ⟨h.seg_back.1, h.seg_back.2⟩

/-- **Below a root** there is a forest of its own. -/
theorem below (h : Hangs l parent before head f) (hnd : f.nodes.Nodup) (hc : c ∈ f.roots) :
    ∃ g : Forest α, Hangs l c 0 (l.first c) g ∧ l.up c = parent ∧ g.nodes.Nodup ∧
      g.nodes ⊆ f.nodes ∧ ∀ q ∈ f.roots, q ∉ g.nodes := by
  induction f generalizing before head with
  | nil => cases hc
  | tree root below after _ ih =>
    obtain ⟨-, -, -, hu, hbelow, hafter⟩ := h
    obtain ⟨hnotin, hnd⟩ := List.nodup_cons.mp hnd
    obtain ⟨hndb, hnda, hdisj⟩ := List.nodup_append.mp hnd
    rcases List.mem_cons.mp hc with rfl | hc
    · refine ⟨below, hbelow, hu, hndb, ?_, fun q hq hqb => ?_⟩
      · exact fun q hq => List.mem_cons_of_mem c (List.mem_append_left _ hq)
      · rcases List.mem_cons.mp hq with rfl | hq
        · exact hnotin (List.mem_append_left _ hqb)
        · exact hdisj q hqb q (after.roots_subset hq) rfl
    · obtain ⟨g, hg, hup, hndg, hsub, hapart⟩ := ih hafter hnda hc
      refine ⟨g, hg, hup, hndg, fun q hq => ?_, fun q hq hqg => ?_⟩
      · exact List.mem_cons_of_mem root (List.mem_append_right _ (hsub hq))
      · rcases List.mem_cons.mp hq with rfl | hq
        · exact hnotin (List.mem_append_right _ (hsub hqg))
        · exact hapart q hq hqg

/-- A list is a forest if there is one below each of its nodes. -/
theorem of_list {xs : List α} (h : Seg l.next head xs 0) (hback : Back l.prev before xs)
    (hup : ∀ x ∈ xs, l.up x = parent) (hbelow : ∀ x ∈ xs, ∃ f, Hangs l x 0 (l.first x) f) :
    ∃ f, Hangs l parent before head f := by
  induction xs generalizing before head with
  | nil => exact ⟨.nil, h⟩
  | cons x xs ih =>
    obtain ⟨hhead, hne, hrest⟩ := h
    obtain ⟨below, hbelow'⟩ := hbelow x List.mem_cons_self
    obtain ⟨after, hafter⟩ := ih hrest hback.2 (fun y hy => hup y (List.mem_cons_of_mem x hy))
      fun y hy => hbelow y (List.mem_cons_of_mem x hy)
    exact ⟨.tree x below after, hhead, hne, hback.1, hup x List.mem_cons_self, hbelow', hafter⟩

/-- The pointers of the roots. -/
theorem root_up (h : Hangs l parent before head f) (hx : x ∈ f.roots) : l.up x = parent := by
  induction f generalizing before head with
  | nil => cases hx
  | tree root below after _ ih =>
    obtain ⟨-, -, -, hu, -, hafter⟩ := h
    rcases List.mem_cons.mp hx with rfl | hx
    · exact hu
    · exact ih hafter hx

/-- From every node the pointers lead to a root. -/
theorem leadsTo_root (h : Hangs l parent before head f) (hx : x ∈ f.nodes) :
    ∃ r ∈ f.roots, LeadsTo l.up x r := by
  induction f generalizing parent before head with
  | nil => cases hx
  | tree root below after ihb iha =>
    obtain ⟨-, -, -, -, hbelow, hafter⟩ := h
    rcases List.mem_cons.mp hx with rfl | hx
    · exact ⟨x, List.mem_cons_self, .refl⟩
    rcases List.mem_append.mp hx with hx | hx
    · obtain ⟨r, hr, hleads⟩ := ihb hbelow hx
      exact ⟨root, List.mem_cons_self, hleads.tail (hbelow.root_up hr)⟩
    · obtain ⟨r, hr, hleads⟩ := iha hafter hx
      exact ⟨r, List.mem_cons_of_mem root hr, hleads⟩

/-- Every node is below what the forest hangs on. -/
theorem leadsTo_parent (h : Hangs l parent before head f) (hx : x ∈ f.nodes) :
    LeadsTo l.up x parent := by
  obtain ⟨r, hr, hleads⟩ := h.leadsTo_root hx
  exact hleads.tail (h.root_up hr)

/-- What a forest hangs on is not in it. -/
theorem parent_not_mem (h : Hangs l parent before head f) (hnull : l.up 0 = 0)
    (hroots : ∀ x, HasRoot l.up x) : parent ∉ f.nodes := by
  intro hmem
  obtain ⟨r, hr, hleads⟩ := h.leadsTo_root hmem
  rw [← h.root_up hr] at hleads
  exact not_hasRoot_of_loop hnull (h.ne_zero (f.roots_subset hr)) hleads (hroots r)

/-- **Where every node has a root**, no node is in a forest twice. -/
theorem nodup (h : Hangs l parent before head f) (hnull : l.up 0 = 0)
    (hroots : ∀ x, HasRoot l.up x) : f.nodes.Nodup := by
  induction f generalizing parent before head with
  | nil => exact List.nodup_nil
  | tree root below after ihb iha =>
    have hseg := h.seg_back.1.nodup
    obtain ⟨-, hroot, -, hu, hbelow, hafter⟩ := h
    have hnone : ∀ {a b}, b ≠ 0 → l.up a = l.up b → a ≠ b → ¬ LeadsTo l.up a b :=
      fun hb hsame hne hleads => not_hasRoot_of_loop hnull hb (hleads.of_sibling hsame hne) (hroots _)
    have hapart : ∀ r ∈ after.roots, l.up root = l.up r ∧ root ≠ r ∧ r ≠ 0 := by
      intro r hr
      refine ⟨hu.trans (hafter.root_up hr).symm, ?_, hafter.ne_zero (after.roots_subset hr)⟩
      rintro rfl
      exact (List.nodup_cons.mp hseg).1 hr
    refine List.nodup_cons.mpr ⟨?_, List.nodup_append.mpr ⟨ihb hbelow, iha hafter, ?_⟩⟩
    · intro hmem
      rcases List.mem_append.mp hmem with hmem | hmem
      · exact hbelow.parent_not_mem hnull hroots hmem
      · obtain ⟨r, hr, hleads⟩ := hafter.leadsTo_root hmem
        obtain ⟨hsame, hne, hr₀⟩ := hapart r hr
        exact hnone hr₀ hsame hne hleads
    · -- a node in both would be below two siblings
      rintro x hx _ hx' rfl
      obtain ⟨r, hr, hleads⟩ := hafter.leadsTo_root hx'
      obtain ⟨hsame, hne, hr₀⟩ := hapart r hr
      rcases (hbelow.leadsTo_parent hx).total hleads with hup | hup
      · exact hnone hr₀ hsame hne hup
      · exact hnone hroot hsame.symm hne.symm hup

/-- A forest of pointers below `n` has fewer than `n` nodes. -/
theorem length_lt {l : Links ℕ} {parent before head n : ℕ} {f : Forest ℕ}
    (h : Hangs l parent before head f) (hnd : f.nodes.Nodup) (hlt : ∀ x ∈ f.nodes, x < n)
    (hn : 0 < n) : f.nodes.length < n :=
  pointers_length_lt hnd (fun _ hx => h.ne_zero hx) hlt hn

end Hangs

/-! ### Forward links only -/

/-- The forest is in memory: `next` leads from `head` through its roots, and `first` from each of
them to what is below it. -/
def Threads (next first : α → α) : α → Forest α → Prop
  | head, .nil => head = 0
  | head, .tree root below after =>
    head = root ∧ root ≠ 0 ∧ Threads next first (first root) below ∧
      Threads next first (next root) after

/-- A forest with all its links has these. -/
theorem Hangs.threads {l : Links α} {parent before head : α} {f : Forest α}
    (h : Hangs l parent before head f) : Threads l.next l.first head f := by
  induction f generalizing parent before head with
  | nil => exact h
  | tree root below after ihb iha =>
    obtain ⟨hhead, hroot, -, -, hbelow, hafter⟩ := h
    exact ⟨hhead, hroot, ihb hbelow, iha hafter⟩

namespace Threads

variable {next next' first first' : α → α} {head c : α} {f : Forest α}

/-- A forest depends on the links of its own nodes only. -/
theorem congr (h : Threads next first head f)
    (hsame : ∀ q ∈ f.nodes, next' q = next q ∧ first' q = first q) :
    Threads next' first' head f := by
  induction f generalizing head with
  | nil => exact h
  | tree root below after ihb iha =>
    obtain ⟨hhead, hroot, hbelow, hafter⟩ := h
    obtain ⟨hnext, hfirst⟩ := hsame root List.mem_cons_self
    refine ⟨hhead, hroot, ?_, ?_⟩
    · rw [hfirst]
      exact ihb hbelow fun q hq => hsame q (List.mem_cons_of_mem root (List.mem_append_left _ hq))
    · rw [hnext]
      exact iha hafter fun q hq => hsame q (List.mem_cons_of_mem root (List.mem_append_right _ hq))

theorem ne_zero {x : α} (h : Threads next first head f) (hx : x ∈ f.nodes) : x ≠ 0 := by
  induction f generalizing head with
  | nil => cases hx
  | tree root below after ihb iha =>
    obtain ⟨-, hroot, hbelow, hafter⟩ := h
    rcases List.mem_cons.mp hx with rfl | hx
    · exact hroot
    rcases List.mem_append.mp hx with hx | hx
    · exact ihb hbelow hx
    · exact iha hafter hx

/-- The roots are a list. -/
theorem seg (h : Threads next first head f) : Seg next head f.roots 0 := by
  induction f generalizing head with
  | nil => exact h
  | tree root below after _ ih => exact ⟨h.1, h.2.1, ih h.2.2.2⟩

/-- **Below a node** there is a forest. -/
theorem below (h : Threads next first head f) (hc : c ∈ f.nodes) :
    ∃ g : Forest α, Threads next first (first c) g ∧ (c :: g.nodes).Sublist f.nodes := by
  induction f generalizing head with
  | nil => cases hc
  | tree root below after ihb iha =>
    obtain ⟨-, -, hbelow, hafter⟩ := h
    rcases List.mem_cons.mp hc with rfl | hc
    · exact ⟨below, hbelow, (List.sublist_append_left ..).cons_cons c⟩
    rcases List.mem_append.mp hc with hc | hc
    · obtain ⟨g, hg, hsub⟩ := ihb hbelow hc
      exact ⟨g, hg, (hsub.trans (List.sublist_append_left ..)).cons root⟩
    · obtain ⟨g, hg, hsub⟩ := iha hafter hc
      exact ⟨g, hg, (hsub.trans (List.sublist_append_right ..)).cons root⟩

/-- Below a root that is detached there is what is detached with it. -/
theorem detach {p : α → Bool} {below rest : Forest α} (h : Threads next first head f)
    (hd : f.detach p = some (c, below, rest)) : c ≠ 0 ∧ Threads next first (first c) below := by
  induction f generalizing head c below rest with
  | nil => cases hd
  | tree root below₀ after _ ih =>
    obtain ⟨-, hroot, hbelow, hafter⟩ := h
    rw [Forest.detach] at hd
    split at hd
    · cases hd
      exact ⟨hroot, hbelow⟩
    · obtain ⟨_, hafterd, heq⟩ := Option.map_eq_some_iff.mp hd
      cases heq
      exact ih hafter hafterd

end Threads

end PrismaticOS.Library
