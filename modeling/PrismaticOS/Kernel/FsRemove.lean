import PrismaticOS.Library.Forests

/-!
# Removing a node

`vfs_remove_child` and `vfs_destroy_node` of `kernel/fs.c`, on nodes in memory.

## The model

A block of memory that was allocated is a node or the data of a file; a block that was freed is
nothing, and a program that reads it, or frees it again, does not return (`none`). `freed` are the
pointers that were given to `kfree`. The arguments are not `NULL`. Of a node there are the fields
that the two functions read: a parent pointer is not read here. `fuel` says how deep the calls and
loops may be nested.

## What is proved

* `vfsDestroyChildren_spec` — destroying a forest frees its nodes and their data, each of them once.
* `removeLoop_eq` — the search stops at the first child that has the name, and links over it.
* `vfs_remove_child_spec` — what `vfs_remove_child` returns and leaves, for every directory of a tree.
-/

namespace PrismaticOS.Kernel

open PrismaticOS.Library

/-- A `vfs_node_t`. -/
structure VfsNode where
  /-- Its name. -/
  name : List UInt8
  /-- Its first child, or `NULL`. -/
  children : ℕ
  /-- The next child of its parent, or `NULL`. -/
  next : ℕ
  /-- The data of the file, or `NULL`. -/
  privateData : ℕ

/-- A block of memory. -/
inductive VfsBlock where
  /-- A node. -/
  | node (n : VfsNode)
  /-- The data of a file. -/
  | data

/-- Memory with nodes. -/
structure VfsHeap where
  /-- The blocks that are allocated. -/
  blocks : ℕ → Option VfsBlock
  /-- The pointers that were freed, the last one first. -/
  freed : List ℕ

namespace VfsHeap

/-- The node that a pointer points at. -/
def node (h : VfsHeap) (p : ℕ) : Option VfsNode :=
  match h.blocks p with
  | some (.node n) => some n
  | _ => none

/-- `kfree`. -/
def kfree (h : VfsHeap) (p : ℕ) : Option VfsHeap :=
  (h.blocks p).map fun _ => ⟨Function.update h.blocks p none, p :: h.freed⟩

/-- What a pointer to a node points at changes. -/
def modify (h : VfsHeap) (p : ℕ) (f : VfsNode → VfsNode) : Option VfsHeap :=
  (h.node p).map fun n => { h with blocks := Function.update h.blocks p (some (.node (f n))) }

end VfsHeap

mutual

/-- `vfs_destroy_node`. -/
def vfsDestroyNode : ℕ → VfsHeap → ℕ → Option VfsHeap
  | 0, _, _ => none
  | fuel + 1, h, node =>
    if node = 0 then some h
    else
      (h.node node).bind fun n =>
        (if n.privateData ≠ 0 then h.kfree n.privateData else some h).bind fun h =>
          -- `node->children` is read after the data is freed
          (h.node node).bind fun n =>
            (vfsDestroyChildren fuel h n.children).bind fun h => h.kfree node

/-- The loop of `vfs_destroy_node` over the children. -/
def vfsDestroyChildren : ℕ → VfsHeap → ℕ → Option VfsHeap
  | 0, _, _ => none
  | fuel + 1, h, child =>
    if child = 0 then some h
    else
      (h.node child).bind fun c =>
        (vfsDestroyNode fuel h child).bind fun h => vfsDestroyChildren fuel h c.next

end

/-- `prev->next = v`, or `parent->children = v` without a `prev`. -/
def VfsHeap.relink (h : VfsHeap) (parent prev v : ℕ) : Option VfsHeap :=
  if prev ≠ 0 then h.modify prev fun n => { n with next := v }
  else h.modify parent fun n => { n with children := v }

/-- The loop of `vfs_remove_child`. -/
def removeLoop (fuel : ℕ) (parent : ℕ) (name : List UInt8) :
    ℕ → VfsHeap → ℕ → ℕ → Option (VfsHeap × ℤ)
  | 0, _, _, _ => none
  | steps + 1, h, prev, child =>
    if child = 0 then some (h, -1)
    else
      (h.node child).bind fun c =>
        if c.name = name then
          (h.relink parent prev c.next).bind fun h => (vfsDestroyNode fuel h child).map fun h => (h, 0)
        else removeLoop fuel parent name steps h child c.next

/-- `vfs_remove_child`. -/
def vfsRemoveChild (fuel : ℕ) (h : VfsHeap) (parent : ℕ) (name : List UInt8) :
    Option (VfsHeap × ℤ) :=
  (h.node parent).bind fun n => removeLoop fuel parent name fuel h 0 n.children

/-! ### Trees -/

namespace VfsHeap

/-- `p->next`. -/
def next (h : VfsHeap) (p : ℕ) : ℕ := ((h.node p).map VfsNode.next).getD 0

/-- `p->children`. -/
def first (h : VfsHeap) (p : ℕ) : ℕ := ((h.node p).map VfsNode.children).getD 0

/-- The child has the name. -/
def named (h : VfsHeap) (name : List UInt8) (p : ℕ) : Bool := (h.node p).map VfsNode.name = some name

/-- The pointer to a node, and that to its data if it is not `NULL`. -/
def owned (h : VfsHeap) (p : ℕ) : List ℕ :=
  match h.node p with
  | some n => if n.privateData ≠ 0 then [p, n.privateData] else [p]
  | none => [p]

/-- The pointers to some nodes and to their data. -/
def pointers (h : VfsHeap) (ps : List ℕ) : List ℕ := ps.flatMap h.owned

/-- The heap after some pointers were freed. -/
def released (h : VfsHeap) (ps : List ℕ) : VfsHeap :=
  ⟨fun p => if p ∈ ps then none else h.blocks p, ps ++ h.freed⟩

end VfsHeap

/-- The nodes of the forest are linked from `head` on; all of them and their data are allocated, and
no block belongs to two. -/
structure VfsForest (h : VfsHeap) (head : ℕ) (f : Forest ℕ) : Prop where
  /-- The links. -/
  threads : Threads h.next h.first head f
  /-- They lead to nodes. -/
  nodes : ∀ p ∈ f.nodes, h.node p ≠ none
  /-- Their data is allocated. -/
  allocated : ∀ p ∈ h.pointers f.nodes, h.blocks p ≠ none
  /-- All blocks are different. -/
  apart : (h.pointers f.nodes).Nodup

/-- The first child with the name, `c`, is removed: the list of `dir` leads to the rest, the blocks
of `c` and of what is below it are freed, each once, and the others are as they were, but for the
link over `c`, which is in `dir` or in another child. -/
structure RemovedFirst (h h' : VfsHeap) (dir c : ℕ) (below rest : Forest ℕ) : Prop where
  /-- What is below `c`. -/
  subtree : VfsForest h (h.first c) below
  /-- The list. -/
  tree : VfsForest h' (h'.first dir) rest
  /-- What was freed. -/
  freed : ∃ order, h'.freed = order ++ h.freed ∧ order.Perm (h.pointers (c :: below.nodes)) ∧ order.Nodup
  /-- It is gone. -/
  gone : ∀ p ∈ h.pointers (c :: below.nodes), h'.blocks p = none
  /-- The link. -/
  link : ∃ q n, h.node q = some n ∧
    ((q = dir ∧ h'.node q = some { n with children := h.next c }) ∨
      (q ∈ rest.roots ∧ h'.node q = some { n with next := h.next c })) ∧
    ∀ p, p ≠ q → p ∉ h.pointers (c :: below.nodes) → h'.blocks p = h.blocks p

/-- What `vfs_remove_child` is to do: it returns 0 exactly if a child of `dir` has the name; then the
list of `dir` is the old one without the first such child, which is freed with what is below it, and
otherwise nothing changes. -/
def RemovesChild (fuel : ℕ) (h : VfsHeap) (dir : ℕ) (name : List UInt8) : Prop :=
  ∃ kids h' code, VfsForest h (h.first dir) kids ∧ vfsRemoveChild fuel h dir name = some (h', code) ∧
    (code = 0 ↔ ∃ c ∈ kids.roots, h.named name c = true) ∧
    (code = 0 → ∃ c below rest, kids.detach (h.named name) = some (c, below, rest) ∧
      rest.roots = kids.roots.eraseP (h.named name) ∧ RemovedFirst h h' dir c below rest) ∧
    (code ≠ 0 → h' = h)

variable {h h' : VfsHeap} {head dir parent prev c p q fuel : ℕ} {name : List UInt8}
  {f below after rest : Forest ℕ} {ps qs order : List ℕ} {n : VfsNode}

namespace VfsHeap

theorem node_eq (hp : h.node p = some n) : h.blocks p = some (.node n) := by
  unfold node at hp
  split at hp
  · rename_i heq
    rw [heq, Option.some.inj hp]
  · cases hp

theorem node_congr (hp : h'.blocks p = h.blocks p) : h'.node p = h.node p := by
  unfold node
  rw [hp]

/-- The links of a node depend on its block. -/
theorem links_congr (hp : h'.blocks p = h.blocks p) : h'.next p = h.next p ∧ h'.first p = h.first p := by
  unfold next first
  rw [node_congr hp]
  exact ⟨rfl, rfl⟩

theorem owned_congr (hp : h'.blocks p = h.blocks p) : h'.owned p = h.owned p := by
  unfold owned
  rw [node_congr hp]

/-- A node is one of its blocks. -/
theorem mem_owned (h : VfsHeap) (p : ℕ) : p ∈ h.owned p := by
  unfold owned
  split
  · split <;> exact List.mem_cons_self
  · exact List.mem_cons_self

theorem mem_pointers (hp : p ∈ ps) : p ∈ h.pointers ps :=
  List.mem_flatMap.mpr ⟨p, hp, h.mem_owned p⟩

theorem pointers_congr (hsame : ∀ p ∈ ps, h'.blocks p = h.blocks p) :
    h'.pointers ps = h.pointers ps :=
  List.flatMap_congr fun p hp => owned_congr (hsame p hp)

theorem pointers_append (h : VfsHeap) (ps qs : List ℕ) :
    h.pointers (ps ++ qs) = h.pointers ps ++ h.pointers qs := List.flatMap_append

theorem pointers_cons (h : VfsHeap) (p : ℕ) (ps : List ℕ) :
    h.pointers (p :: ps) = h.owned p ++ h.pointers ps := List.flatMap_cons

/-- Where all blocks are different, all nodes are. -/
theorem nodup_of_pointers (hnd : (h.pointers ps).Nodup) : ps.Nodup := by
  induction ps with
  | nil => exact List.nodup_nil
  | cons p ps ih =>
    rw [pointers_cons] at hnd
    obtain ⟨-, hnd, hdisj⟩ := List.nodup_append.mp hnd
    exact List.nodup_cons.mpr ⟨fun hp => hdisj p (h.mem_owned p) p (mem_pointers hp) rfl, ih hnd⟩

theorem released_of_notMem (hp : p ∉ ps) : (h.released ps).blocks p = h.blocks p := if_neg hp

/-- Two releases are one. -/
theorem released_append (h : VfsHeap) (ps qs : List ℕ) :
    (h.released ps).released qs = h.released (qs ++ ps) := by
  unfold released
  rw [List.append_assoc]
  congr 1
  funext p
  dsimp only
  by_cases hq : p ∈ qs
  · rw [if_pos hq, if_pos (List.mem_append_left _ hq)]
  · rw [if_neg hq]
    by_cases hp : p ∈ ps
    · rw [if_pos hp, if_pos (List.mem_append_right _ hp)]
    · rw [if_neg hp, if_neg fun h => (List.mem_append.mp h).elim hq hp]

/-- `kfree` of a block that is allocated. -/
theorem kfree_eq (hp : h.blocks p ≠ none) : h.kfree p = some (h.released [p]) := by
  obtain ⟨b, hb⟩ := Option.ne_none_iff_exists'.mp hp
  have hblocks : Function.update h.blocks p none = fun q => if q ∈ [p] then none else h.blocks q := by
    funext q
    by_cases hq : q = p
    · rw [hq, Function.update_self, if_pos (List.mem_singleton_self p)]
    · rw [Function.update_of_ne hq, if_neg (List.mem_singleton.not.mpr hq)]
  unfold kfree released
  rw [hb, hblocks]
  rfl

/-- Changing a node. -/
theorem modify_eq (hp : h.node p = some n) (g : VfsNode → VfsNode) :
    h.modify p g = some { h with blocks := Function.update h.blocks p (some (.node (g n))) } := by
  unfold modify
  rw [hp]
  rfl

end VfsHeap

/-- A tree depends on its own blocks only. -/
theorem VfsForest.congr (ht : VfsForest h head f)
    (hsame : ∀ p ∈ h.pointers f.nodes, h'.blocks p = h.blocks p) :
    VfsForest h' head f ∧ h'.pointers f.nodes = h.pointers f.nodes := by
  have hblock : ∀ p ∈ f.nodes, h'.blocks p = h.blocks p := fun p hp =>
    hsame p (VfsHeap.mem_pointers hp)
  have hnode : ∀ p ∈ f.nodes, h'.node p = h.node p := fun p hp => VfsHeap.node_congr (hblock p hp)
  have hpointers := VfsHeap.pointers_congr hblock
  refine ⟨⟨ht.threads.congr fun p hp => VfsHeap.links_congr (hblock p hp), fun p hp => ?_,
    fun p hp => ?_, ?_⟩, hpointers⟩
  · rw [hnode p hp]
    exact ht.nodes p hp
  · rw [hpointers] at hp
    rw [hsame p hp]
    exact ht.allocated p hp
  · rw [hpointers]
    exact ht.apart

/-- The first root, what is below it, and what is after it. -/
theorem VfsForest.parts (ht : VfsForest h head (.tree c below after)) :
    head = c ∧ c ≠ 0 ∧ VfsForest h (h.first c) below ∧ VfsForest h (h.next c) after ∧
      (h.pointers (c :: below.nodes)).Nodup ∧
        ∀ p ∈ h.pointers (c :: below.nodes), p ∉ h.pointers after.nodes := by
  obtain ⟨hhead, hc, hbelow, hafter⟩ := ht.threads
  have hall : h.pointers (Forest.tree c below after).nodes =
      h.pointers (c :: below.nodes) ++ h.pointers after.nodes := by
    rw [← VfsHeap.pointers_append]
    rfl
  have hnd := ht.apart
  rw [hall] at hnd
  obtain ⟨hndc, hnda, hdisj⟩ := List.nodup_append.mp hnd
  have hndb : (h.pointers below.nodes).Nodup := by
    rw [VfsHeap.pointers_cons] at hndc
    exact (List.nodup_append.mp hndc).2.1
  refine ⟨hhead, hc, ⟨hbelow, fun p hp => ?_, fun p hp => ?_, hndb⟩,
    ⟨hafter, fun p hp => ?_, fun p hp => ?_, hnda⟩, hndc, fun p hp hpa => hdisj p hp p hpa rfl⟩
  · exact ht.nodes p (List.mem_cons_of_mem c (List.mem_append_left _ hp))
  · refine ht.allocated p ?_
    rw [hall, VfsHeap.pointers_cons]
    exact List.mem_append_left _ (List.mem_append_right _ hp)
  · exact ht.nodes p (List.mem_cons_of_mem c (List.mem_append_right _ hp))
  · refine ht.allocated p ?_
    rw [hall]
    exact List.mem_append_right _ hp

/-! ### Destroying -/

/-- Destroying the forest, with enough fuel, frees its nodes and their data, each once. -/
def DestroysTo (f : Forest ℕ) : Prop := ∀ (h : VfsHeap) (head fuel : ℕ), VfsForest h head f →
  2 * f.nodes.length < fuel → ∃ order, order.Perm (h.pointers f.nodes) ∧
    vfsDestroyChildren fuel h head = some (h.released order)

/-- A node is destroyed, if what is below it can be. -/
theorem DestroysTo.node (hdestroy : DestroysTo below) (hc : c ≠ 0) (hnode : h.node c = some n)
    (ht : VfsForest h n.children below) (hnd : (h.pointers (c :: below.nodes)).Nodup)
    (hdata : n.privateData ≠ 0 → h.blocks n.privateData ≠ none)
    (hfuel : 2 * below.nodes.length + 1 < fuel) :
    ∃ order, order.Perm (h.pointers (c :: below.nodes)) ∧
      vfsDestroyNode fuel h c = some (h.released order) := by
  obtain ⟨fuel, rfl⟩ := Nat.exists_eq_add_one_of_ne_zero (Nat.ne_zero_of_lt hfuel)
  -- the data is freed, if there is any
  obtain ⟨ds, hds, hfree⟩ : ∃ ds, h.owned c = c :: ds ∧
      (if n.privateData ≠ 0 then h.kfree n.privateData else some h) = some (h.released ds) := by
    unfold VfsHeap.owned
    rw [hnode]
    dsimp only
    split
    · rename_i hne
      exact ⟨[n.privateData], rfl, VfsHeap.kfree_eq (hdata hne)⟩
    · exact ⟨[], rfl, rfl⟩
  rw [VfsHeap.pointers_cons, hds, List.cons_append, List.nodup_cons] at hnd
  obtain ⟨hcout, hnd⟩ := hnd
  obtain ⟨-, -, hdisj⟩ := List.nodup_append.mp hnd
  have hcds : c ∉ ds := fun hmem => hcout (List.mem_append_left _ hmem)
  have hcbelow : c ∉ h.pointers below.nodes := fun hmem => hcout (List.mem_append_right _ hmem)
  have hkept : ∀ p ∈ h.pointers below.nodes, (h.released ds).blocks p = h.blocks p := fun p hp =>
    VfsHeap.released_of_notMem fun hmem => hdisj p hmem p hp rfl
  obtain ⟨ht₁, hpointers⟩ := ht.congr hkept
  have hnode₁ : (h.released ds).node c = some n :=
    (VfsHeap.node_congr (VfsHeap.released_of_notMem hcds)).trans hnode
  -- then what is below the node, and then the node
  obtain ⟨order, hperm, hbelow⟩ := hdestroy _ _ fuel ht₁ (by omega)
  rw [hpointers] at hperm
  have hkfree : (h.released (order ++ ds)).kfree c = some (h.released (c :: (order ++ ds))) := by
    have hcorder : c ∉ order ++ ds := fun hmem =>
      (List.mem_append.mp hmem).elim (fun hmem => hcbelow (hperm.mem_iff.mp hmem)) hcds
    rw [VfsHeap.kfree_eq, VfsHeap.released_append]
    · rfl
    · rw [VfsHeap.released_of_notMem hcorder, VfsHeap.node_eq hnode]
      nofun
  refine ⟨c :: (order ++ ds), ?_, ?_⟩
  · rw [VfsHeap.pointers_cons, hds]
    exact ((hperm.append_right ds).trans List.perm_append_comm).cons c
  · rw [vfsDestroyNode, if_neg hc, hnode, Option.bind_some, hfree, Option.bind_some, hnode₁,
      Option.bind_some, hbelow, Option.bind_some, VfsHeap.released_append, hkfree]

/-- **Destroying a forest** frees its nodes and their data, each once. -/
theorem vfsDestroyChildren_spec (f : Forest ℕ) : DestroysTo f := by
  induction f with
  | nil =>
    intro h head fuel ht hfuel
    obtain ⟨fuel, rfl⟩ := Nat.exists_eq_add_one_of_ne_zero (Nat.ne_zero_of_lt hfuel)
    have hhead : head = 0 := ht.threads
    exact ⟨[], .nil, by rw [vfsDestroyChildren, if_pos hhead]; rfl⟩
  | tree c below after ihb iha =>
    intro h head fuel ht hfuel
    obtain ⟨fuel, rfl⟩ := Nat.exists_eq_add_one_of_ne_zero (Nat.ne_zero_of_lt hfuel)
    obtain ⟨rfl, hc, hbelow, hafter, hnd, hdisj⟩ := ht.parts
    simp only [Forest.nodes, List.length_cons, List.length_append] at hfuel
    obtain ⟨n, hnode⟩ := Option.ne_none_iff_exists'.mp (ht.nodes head List.mem_cons_self)
    have hfirst : h.first head = n.children := by rw [VfsHeap.first, hnode]; rfl
    have hnext : h.next head = n.next := by rw [VfsHeap.next, hnode]; rfl
    have hdata : n.privateData ≠ 0 → h.blocks n.privateData ≠ none := by
      intro hne
      refine ht.allocated _ (List.mem_flatMap.mpr ⟨head, List.mem_cons_self, ?_⟩)
      rw [VfsHeap.owned, hnode]
      dsimp only
      rw [if_pos hne]
      exact .tail _ (.head _)
    rw [hfirst] at hbelow
    rw [hnext] at hafter
    have hfuel' : 2 * below.nodes.length + 1 < fuel := by omega
    obtain ⟨order, hperm, hone⟩ := ihb.node hc hnode hbelow hnd hdata hfuel'
    have hkept : ∀ p ∈ h.pointers after.nodes, (h.released order).blocks p = h.blocks p := fun p hp =>
      VfsHeap.released_of_notMem fun hmem => hdisj p (hperm.mem_iff.mp hmem) hp
    obtain ⟨ht₁, hpointers⟩ := hafter.congr hkept
    obtain ⟨order', hperm', hrest⟩ := iha _ _ fuel ht₁ (by omega)
    rw [hpointers] at hperm'
    refine ⟨order' ++ order, ?_, ?_⟩
    · have hall : h.pointers (Forest.tree head below after).nodes =
          h.pointers (head :: below.nodes) ++ h.pointers after.nodes := by
        rw [← VfsHeap.pointers_append]
        rfl
      rw [hall]
      exact (hperm'.append hperm).trans List.perm_append_comm
    · rw [vfsDestroyChildren, if_neg hc, hnode, Option.bind_some, hone, Option.bind_some, hrest,
        VfsHeap.released_append]

/-! ### The search -/

/-- What the search does when it is at `child`, with `prev` before it. -/
def Searches (fuel : ℕ) (h : VfsHeap) (parent : ℕ) (name : List UInt8) (prev child : ℕ)
    (f : Forest ℕ) (r : Option (VfsHeap × ℤ)) : Prop :=
  (f.detach (h.named name) = none → r = some (h, -1)) ∧
    ∀ c below rest, f.detach (h.named name) = some (c, below, rest) →
      ∃ q, r = ((h.relink parent q (h.next c)).bind fun h =>
          (vfsDestroyNode fuel h c).map fun h => (h, 0)) ∧
        ((q = prev ∧ Threads h.next h.first (h.next c) rest) ∨
          (q ∈ rest.roots ∧ Threads (Function.update h.next q (h.next c)) h.first child rest))

/-- **The search** stops at the first child that has the name, and links over it. -/
theorem removeLoop_eq (fuel parent : ℕ) (name : List UInt8) (steps prev : ℕ) {child : ℕ}
    (hthreads : Threads h.next h.first child f)
    (hnodes : ∀ p ∈ f.nodes, h.node p ≠ none) (hnd : f.nodes.Nodup) (hsteps : f.nodes.length < steps) :
    Searches fuel h parent name prev child f (removeLoop fuel parent name steps h prev child) := by
  induction f generalizing steps prev child with
  | nil =>
    obtain ⟨steps, rfl⟩ := Nat.exists_eq_add_one_of_ne_zero (Nat.ne_zero_of_lt hsteps)
    have hchild : child = 0 := hthreads
    exact ⟨fun _ => by rw [removeLoop, if_pos hchild], fun _ _ _ hsome => by cases hsome⟩
  | tree root below₀ after _ ih =>
    obtain ⟨steps, rfl⟩ := Nat.exists_eq_add_one_of_ne_zero (Nat.ne_zero_of_lt hsteps)
    obtain ⟨rfl, h0, hbelow, hafter⟩ := hthreads
    obtain ⟨hrootout, hnd⟩ := List.nodup_cons.mp hnd
    obtain ⟨-, hnda, hdisj⟩ := List.nodup_append.mp hnd
    simp only [Forest.nodes, List.length_cons, List.length_append] at hsteps
    obtain ⟨n, hnode⟩ := Option.ne_none_iff_exists'.mp (hnodes child List.mem_cons_self)
    have hnext : h.next child = n.next := by rw [VfsHeap.next, hnode]; rfl
    have hnamed : h.named name child = decide (n.name = name) := by
      rw [VfsHeap.named, hnode, Option.map_some]
      exact decide_eq_decide.mpr (Option.some_inj)
    rw [removeLoop, if_neg h0, hnode, Option.bind_some]
    by_cases hname : n.name = name
    · -- this is the child
      have hdetach := Forest.detach_root (hnamed.trans (decide_eq_true hname)) below₀ after
      rw [if_pos hname, ← hnext]
      refine ⟨fun hnone => absurd (hdetach.symm.trans hnone) (Option.some_ne_none _),
        fun c below rest hsome => ?_⟩
      cases hdetach.symm.trans hsome
      exact ⟨prev, rfl, .inl ⟨rfl, hafter⟩⟩
    · -- it is one of the others
      have hdetach := Forest.detach_other (hnamed.trans (decide_eq_false hname)) below₀ after
      rw [if_neg hname, ← hnext]
      have hrec := ih steps child hafter
        (fun p hp => hnodes p (List.mem_cons_of_mem child (List.mem_append_right _ hp))) hnda (by omega)
      refine ⟨fun hnone => hrec.1 (Option.map_eq_none_iff.mp (hdetach.symm.trans hnone)), ?_⟩
      intro c below rest hsome
      obtain ⟨⟨_, _, rest'⟩, hafterd, heq⟩ := Option.map_eq_some_iff.mp (hdetach.symm.trans hsome)
      cases heq
      obtain ⟨-, -, -, hperm⟩ := Forest.detach_some hafterd
      have hrest : ∀ p ∈ rest'.nodes, p ∈ after.nodes := fun p hp =>
        hperm.mem_iff.mpr (List.mem_append_right _ hp)
      obtain ⟨q, hr, hq⟩ := hrec.2 c below rest' hafterd
      refine ⟨q, hr, .inr ?_⟩
      rcases hq with ⟨rfl, hthreads⟩ | ⟨hq, hthreads⟩
      · -- the one before it is this one
        refine ⟨List.mem_cons_self, rfl, h0, hbelow.congr fun p hp => ⟨?_, rfl⟩, ?_⟩
        · refine Function.update_of_ne ?_ ..
          rintro rfl
          exact hrootout (List.mem_append_left _ hp)
        · rw [Function.update_self]
          refine hthreads.congr fun p hp => ⟨Function.update_of_ne ?_ .., rfl⟩
          rintro rfl
          exact hrootout (List.mem_append_right _ (hrest p hp))
      · have hqafter : q ∈ after.nodes := hrest q (rest'.roots_subset hq)
        refine ⟨List.mem_cons_of_mem _ hq, rfl, h0, hbelow.congr fun p hp => ⟨?_, rfl⟩, ?_⟩
        · refine Function.update_of_ne ?_ ..
          rintro rfl
          exact hdisj p hp p hqafter rfl
        · rw [Function.update_of_ne]
          · exact hthreads
          · rintro rfl
            exact hrootout (List.mem_append_right _ hqafter)

/-! ### Removing -/

/-- The heap with a node changed. -/
def VfsHeap.withNode (h : VfsHeap) (q : ℕ) (n : VfsNode) : VfsHeap :=
  { h with blocks := Function.update h.blocks q (some (.node n)) }

namespace VfsHeap

theorem withNode_node (h : VfsHeap) (q : ℕ) (n : VfsNode) : (h.withNode q n).node q = some n := by
  simp only [node, withNode, Function.update_self]

theorem withNode_of_ne (n : VfsNode) (hp : p ≠ q) : (h.withNode q n).blocks p = h.blocks p :=
  Function.update_of_ne hp ..

/-- A node that keeps its data owns the same blocks. -/
theorem withNode_pointers {n' : VfsNode} (hq : h.node q = some n)
    (hdata : n'.privateData = n.privateData) (ps : List ℕ) :
    (h.withNode q n').pointers ps = h.pointers ps := by
  refine List.flatMap_congr fun p _ => ?_
  by_cases hp : p = q
  · rw [hp, owned, owned, withNode_node, hq]
    dsimp only
    rw [hdata]
  · exact owned_congr (withNode_of_ne n' hp)

end VfsHeap

/-- A detached tree and the rest share no block. -/
theorem VfsForest.detach {g : ℕ → Bool} (ht : VfsForest h head f)
    (hd : f.detach g = some (c, below, rest)) :
    c ≠ 0 ∧ VfsForest h (h.first c) below ∧ (∀ p ∈ c :: below.nodes ++ rest.nodes, p ∈ f.nodes) ∧
      (h.pointers (c :: below.nodes)).Nodup ∧ (h.pointers rest.nodes).Nodup ∧
        ∀ p ∈ h.pointers (c :: below.nodes), p ∉ h.pointers rest.nodes := by
  obtain ⟨-, -, -, hperm⟩ := Forest.detach_some hd
  obtain ⟨hc, hbelow⟩ := ht.threads.detach hd
  have hmem : ∀ p ∈ c :: below.nodes ++ rest.nodes, p ∈ f.nodes := fun p hp => hperm.mem_iff.mpr hp
  have hpointers : (h.pointers f.nodes).Perm
      (h.pointers (c :: below.nodes) ++ h.pointers rest.nodes) := by
    rw [← VfsHeap.pointers_append]
    exact hperm.flatMap_right h.owned
  obtain ⟨hnd, hndr, hdisj⟩ := List.nodup_append.mp (hpointers.nodup_iff.mp ht.apart)
  refine ⟨hc, ⟨hbelow, fun p hp => ?_, fun p hp => ?_, ?_⟩, hmem, hnd, hndr,
    fun p hp hpr => hdisj p hp p hpr rfl⟩
  · exact ht.nodes p (hmem p (List.mem_append_left _ (List.mem_cons_of_mem c hp)))
  · refine ht.allocated p (hpointers.mem_iff.mpr (List.mem_append_left _ ?_))
    rw [VfsHeap.pointers_cons]
    exact List.mem_append_right _ hp
  · rw [VfsHeap.pointers_cons] at hnd
    exact (List.nodup_append.mp hnd).2.1

/-- The link over `c` leaves the rest linked from `dir`. -/
theorem relink_spec {d : VfsNode} {g : ℕ → Bool} (ht : VfsForest h (h.first dir) f)
    (hdir : h.node dir = some d) (hout : dir ∉ f.nodes) (hd : f.detach g = some (c, below, rest))
    (hq : (q = 0 ∧ Threads h.next h.first (h.next c) rest) ∨
      (q ∈ rest.roots ∧
        Threads (Function.update h.next q (h.next c)) h.first (h.first dir) rest)) :
    ∃ q' n n', h.relink dir q (h.next c) = some (h.withNode q' n') ∧ h.node q' = some n ∧
      ((q' = dir ∧ n' = { n with children := h.next c }) ∨
        (q' ∈ rest.roots ∧ n' = { n with next := h.next c })) ∧
      Threads (h.withNode q' n').next (h.withNode q' n').first ((h.withNode q' n').first dir) rest := by
  obtain ⟨-, -, hmem, -, -, -⟩ := ht.detach hd
  have hrest : ∀ p ∈ rest.nodes, p ∈ f.nodes := fun p hp => hmem p (List.mem_append_right _ hp)
  rcases hq with ⟨rfl, hthreads⟩ | ⟨hq, hthreads⟩
  · refine ⟨dir, d, { d with children := h.next c }, ?_, hdir, .inl ⟨rfl, rfl⟩, ?_⟩
    · rw [VfsHeap.relink, if_neg (not_not.mpr rfl), VfsHeap.modify_eq hdir]
      rfl
    · have hfirst : (h.withNode dir { d with children := h.next c }).first dir = h.next c := by
        rw [VfsHeap.first, VfsHeap.withNode_node]
        rfl
      rw [hfirst]
      refine hthreads.congr fun p hp => ?_
      have hne : p ≠ dir := by
        rintro rfl
        exact hout (hrest p hp)
      exact VfsHeap.links_congr (VfsHeap.withNode_of_ne _ hne)
  · have hqf : q ∈ f.nodes := hrest q (rest.roots_subset hq)
    obtain ⟨n, hn⟩ := Option.ne_none_iff_exists'.mp (ht.nodes q hqf)
    have hq0 : q ≠ 0 := by
      rintro rfl
      exact hthreads.seg.ne_zero hq rfl
    have hfirst : ∀ p, (h.withNode q { n with next := h.next c }).first p = h.first p := by
      intro p
      by_cases hp : p = q
      · rw [hp, VfsHeap.first, VfsHeap.first, VfsHeap.withNode_node, hn]
        rfl
      · exact (VfsHeap.links_congr (VfsHeap.withNode_of_ne _ hp)).2
    refine ⟨q, n, { n with next := h.next c }, ?_, hn, .inr ⟨hq, rfl⟩, ?_⟩
    · rw [VfsHeap.relink, if_pos hq0, VfsHeap.modify_eq hn]
      rfl
    · rw [hfirst]
      refine hthreads.congr fun p _ => ⟨?_, hfirst p⟩
      by_cases hp : p = q
      · rw [hp, Function.update_self, VfsHeap.next, VfsHeap.withNode_node]
        rfl
      · rw [Function.update_of_ne hp]
        exact (VfsHeap.links_congr (VfsHeap.withNode_of_ne _ hp)).1

/-- The blocks of some nodes are among those of more. -/
theorem VfsHeap.pointers_subset {ps qs : List ℕ} (hsub : ∀ x ∈ ps, x ∈ qs) :
    ∀ p ∈ h.pointers ps, p ∈ h.pointers qs := by
  intro p hp
  obtain ⟨x, hx, hpx⟩ := List.mem_flatMap.mp hp
  exact List.mem_flatMap.mpr ⟨x, hsub x hx, hpx⟩

/-- The rest is a forest if one node got another link. -/
theorem VfsForest.withNode_rest {n' : VfsNode} {start : ℕ} (ht : VfsForest h head f)
    (hpointers : ∀ ps, (h.withNode q n').pointers ps = h.pointers ps)
    (hrest : ∀ p ∈ rest.nodes, p ∈ f.nodes) (hnd : (h.pointers rest.nodes).Nodup)
    (hthreads : Threads (h.withNode q n').next (h.withNode q n').first start rest) :
    VfsForest (h.withNode q n') start rest := by
  refine ⟨hthreads, fun p hp => ?_, fun p hp => ?_, by rw [hpointers]; exact hnd⟩
  · by_cases hpq : p = q
    · rw [hpq, VfsHeap.withNode_node]
      nofun
    · rw [VfsHeap.node_congr (VfsHeap.withNode_of_ne n' hpq)]
      exact ht.nodes p (hrest p hp)
  · by_cases hpq : p = q
    · rw [hpq, VfsHeap.node_eq (VfsHeap.withNode_node h q n')]
      nofun
    · rw [hpointers] at hp
      rw [VfsHeap.withNode_of_ne n' hpq]
      exact ht.allocated p (VfsHeap.pointers_subset hrest p hp)

/-- The tree of `c` can be destroyed if a node outside of it got another link. -/
theorem VfsForest.withNode_destroys {n' : VfsNode} {g : ℕ → Bool} (ht : VfsForest h head f)
    (hd : f.detach g = some (c, below, rest))
    (hpointers : ∀ ps, (h.withNode q n').pointers ps = h.pointers ps)
    (hq : q ∉ h.pointers (c :: below.nodes)) (hfuel : 2 * f.nodes.length < fuel) :
    ∃ order, order.Perm (h.pointers (c :: below.nodes)) ∧
      vfsDestroyNode fuel (h.withNode q n') c = some ((h.withNode q n').released order) := by
  obtain ⟨hc, hbelow, hmem, hnd, -, -⟩ := ht.detach hd
  have hsame : ∀ p ∈ h.pointers (c :: below.nodes), (h.withNode q n').blocks p = h.blocks p := by
    intro p hp
    refine VfsHeap.withNode_of_ne n' ?_
    rintro rfl
    exact hq hp
  obtain ⟨m, hm⟩ := Option.ne_none_iff_exists'.mp
    (ht.nodes c (hmem c (List.mem_append_left _ List.mem_cons_self)))
  have hcmem : c ∈ h.pointers (c :: below.nodes) := VfsHeap.mem_pointers List.mem_cons_self
  have hm' : (h.withNode q n').node c = some m := (VfsHeap.node_congr (hsame c hcmem)).trans hm
  have hfirst : h.first c = m.children := by rw [VfsHeap.first, hm]; rfl
  have hbelowSame : ∀ p ∈ h.pointers below.nodes, (h.withNode q n').blocks p = h.blocks p := by
    intro p hp
    refine hsame p ?_
    rw [VfsHeap.pointers_cons]
    exact List.mem_append_right _ hp
  obtain ⟨hbelow', -⟩ := hbelow.congr hbelowSame
  rw [hfirst] at hbelow'
  have hmdata : m.privateData ≠ 0 → (h.withNode q n').blocks m.privateData ≠ none := by
    intro hne
    have hown : m.privateData ∈ h.pointers (c :: below.nodes) := by
      refine List.mem_flatMap.mpr ⟨c, List.mem_cons_self, ?_⟩
      rw [VfsHeap.owned, hm]
      dsimp only
      rw [if_pos hne]
      exact .tail _ (.head _)
    rw [hsame _ hown]
    exact ht.allocated _ (VfsHeap.pointers_subset
      (fun x hx => hmem x (List.mem_append_left _ hx)) _ hown)
  have hlength : below.nodes.length < f.nodes.length := by
    obtain ⟨-, -, -, hperm⟩ := Forest.detach_some hd
    rw [hperm.length_eq, List.length_append, List.length_cons]
    omega
  have hfuel' : 2 * below.nodes.length + 1 < fuel := by omega
  obtain ⟨order, hperm, hdestroy⟩ := (vfsDestroyChildren_spec below).node hc hm' hbelow'
    (by rw [hpointers]; exact hnd) hmdata hfuel'
  rw [hpointers] at hperm
  exact ⟨order, hperm, hdestroy⟩

/-- The first child with the name is removed. -/
theorem removedFirst_of {d : VfsNode} (ht : VfsForest h (h.first dir) f) (hdir : h.node dir = some d)
    (hout : dir ∉ h.pointers f.nodes) (hd : f.detach (h.named name) = some (c, below, rest))
    (hfuel : 2 * f.nodes.length < fuel)
    (hq : (q = 0 ∧ Threads h.next h.first (h.next c) rest) ∨
      (q ∈ rest.roots ∧
        Threads (Function.update h.next q (h.next c)) h.first (h.first dir) rest)) :
    ∃ h', ((h.relink dir q (h.next c)).bind fun h =>
        (vfsDestroyNode fuel h c).map fun h => (h, (0 : ℤ))) = some (h', 0) ∧
      RemovedFirst h h' dir c below rest := by
  obtain ⟨-, hbelow, hmem, hnd, hndr, hdisj⟩ := ht.detach hd
  have hdirf : dir ∉ f.nodes := fun hmem => hout (VfsHeap.mem_pointers hmem)
  obtain ⟨q', n, n', hrelink, hn, hlink, hthreads⟩ := relink_spec ht hdir hdirf hd hq
  have hdata' : n'.privateData = n.privateData := by
    rcases hlink with ⟨-, rfl⟩ | ⟨-, rfl⟩
    · rfl
    · rfl
  have hpointers := VfsHeap.withNode_pointers hn hdata'
  -- neither the directory nor a node of the rest is a block that is freed
  have hdirout : dir ∉ h.pointers (c :: below.nodes) := fun hin =>
    hout (VfsHeap.pointers_subset (fun x hx => hmem x (List.mem_append_left _ hx)) dir hin)
  have hrestout : ∀ p ∈ h.pointers rest.nodes, p ∉ h.pointers (c :: below.nodes) := fun p hp hpc =>
    hdisj p hpc hp
  have hqout : q' ∉ h.pointers (c :: below.nodes) := by
    rcases hlink with ⟨rfl, -⟩ | ⟨hq', -⟩
    · exact hdirout
    · exact hrestout q' (VfsHeap.mem_pointers (rest.roots_subset hq'))
  obtain ⟨order, hperm, hdestroy⟩ := ht.withNode_destroys hd hpointers hqout hfuel
  have hkept : ∀ p, p ∉ h.pointers (c :: below.nodes) →
      ((h.withNode q' n').released order).blocks p = (h.withNode q' n').blocks p := fun p hp =>
    VfsHeap.released_of_notMem fun hmem => hp (hperm.mem_iff.mp hmem)
  refine ⟨(h.withNode q' n').released order, ?_, hbelow, ?_, ⟨order, rfl, hperm, hperm.nodup_iff.mpr hnd⟩,
    fun p hp => if_pos (hperm.mem_iff.mpr hp), q', n, hn, ?_, fun p hne hp => ?_⟩
  · rw [hrelink, Option.bind_some, hdestroy]
    rfl
  · -- the rest is as it was
    have hrest := ht.withNode_rest hpointers (fun p hp => hmem p (List.mem_append_right _ hp)) hndr
      hthreads
    rw [(VfsHeap.links_congr (hkept dir hdirout)).2]
    refine (hrest.congr fun p hp => ?_).1
    rw [hpointers] at hp
    exact hkept p (hrestout p hp)
  · have hnode := (VfsHeap.node_congr (hkept q' hqout)).trans (VfsHeap.withNode_node h q' n')
    rcases hlink with ⟨hq', rfl⟩ | ⟨hq', rfl⟩
    · exact .inl ⟨hq', hnode⟩
    · exact .inr ⟨hq', hnode⟩
  · rw [hkept p hp]
    exact VfsHeap.withNode_of_ne n' hne

/-- **`vfs_remove_child`** removes the first child that has the name, for every directory of a tree
and every name. -/
theorem vfs_remove_child_spec {root : ℕ} (ht : VfsForest h root f) (hdir : dir ∈ f.nodes)
    (name : List UInt8) (hfuel : 2 * f.nodes.length < fuel) : RemovesChild fuel h dir name := by
  obtain ⟨kids, hthreads, hsub⟩ := ht.threads.below hdir
  obtain ⟨d, hd⟩ := Option.ne_none_iff_exists'.mp (ht.nodes dir hdir)
  have hfirst : h.first dir = d.children := by rw [VfsHeap.first, hd]; rfl
  have hpsub : (h.pointers (dir :: kids.nodes)).Sublist (h.pointers f.nodes) := hsub.flatMap h.owned
  have hnd := ht.apart.sublist hpsub
  rw [VfsHeap.pointers_cons] at hnd
  obtain ⟨-, hndk, hdisj⟩ := List.nodup_append.mp hnd
  have hout : dir ∉ h.pointers kids.nodes := fun hmem => hdisj dir (h.mem_owned dir) dir hmem rfl
  have hkids : VfsForest h (h.first dir) kids := by
    refine ⟨hthreads, fun p hp => ht.nodes p (hsub.mem (List.mem_cons_of_mem dir hp)), fun p hp => ?_, hndk⟩
    refine ht.allocated p (hpsub.mem ?_)
    rw [VfsHeap.pointers_cons]
    exact List.mem_append_right _ hp
  have hndn : kids.nodes.Nodup := VfsHeap.nodup_of_pointers hndk
  have hlength := hsub.length_le
  rw [List.length_cons] at hlength
  have hsearch := removeLoop_eq fuel dir name fuel 0 hthreads hkids.nodes hndn (by omega)
  have hcall : vfsRemoveChild fuel h dir name = removeLoop fuel dir name fuel h 0 (h.first dir) := by
    rw [vfsRemoveChild, hd, hfirst]
    rfl
  cases hdetach : kids.detach (h.named name) with
  | none =>
    have hno := Forest.detach_none.mp hdetach
    refine ⟨kids, h, -1, hkids, hcall.trans (hsearch.1 hdetach), ?_, nofun, fun _ => rfl⟩
    refine iff_of_false (by decide) ?_
    rintro ⟨c, hc, hnamed⟩
    rw [hno c hc] at hnamed
    cases hnamed
  | some tree =>
    obtain ⟨c, below, rest⟩ := tree
    obtain ⟨hnamed, hc, hroots, -⟩ := Forest.detach_some hdetach
    obtain ⟨q, hr, hq⟩ := hsearch.2 c below rest hdetach
    have hfuel' : 2 * kids.nodes.length < fuel := by omega
    obtain ⟨h', hremove, hremoved⟩ := removedFirst_of hkids hd hout hdetach hfuel' hq
    exact ⟨kids, h', 0, hkids, hcall.trans (hr.trans hremove), iff_of_true rfl ⟨c, hc, hnamed⟩,
      fun _ => ⟨c, below, rest, hdetach, hroots, hremoved⟩, fun hne => absurd rfl hne⟩

/-- A directory at 8 with the files `b` at 16, which has data at 32, and `a` at 24. -/
def smallHeap : VfsHeap where
  blocks p :=
    if p = 8 then some (.node ⟨[], 16, 0, 0⟩)
    else if p = 16 then some (.node ⟨[98], 0, 24, 32⟩)
    else if p = 24 then some (.node ⟨[97], 0, 0, 0⟩)
    else if p = 32 then some .data
    else none
  freed := []

/-- The tree of the directory. -/
def smallTree : Forest ℕ := .tree 8 (.tree 16 .nil (.tree 24 .nil .nil)) .nil

theorem smallHeap_tree : VfsForest smallHeap 8 smallTree where
  threads := ⟨rfl, by decide, ⟨rfl, by decide, rfl, rfl, by decide, rfl, rfl⟩, rfl⟩
  nodes := List.forall_mem_cons.mpr ⟨nofun, List.forall_mem_cons.mpr ⟨nofun,
    List.forall_mem_cons.mpr ⟨nofun, nofun⟩⟩⟩
  allocated := List.forall_mem_cons.mpr ⟨nofun, List.forall_mem_cons.mpr ⟨nofun,
    List.forall_mem_cons.mpr ⟨nofun, List.forall_mem_cons.mpr ⟨nofun, nofun⟩⟩⟩⟩
  apart := by decide

/-- The file `b` is removed from it. -/
theorem vfs_remove_child_spec_small :
    VfsForest smallHeap 8 smallTree ∧ RemovesChild 7 smallHeap 8 [98] :=
  ⟨smallHeap_tree, vfs_remove_child_spec smallHeap_tree (by decide) [98] (by decide)⟩

end PrismaticOS.Kernel
