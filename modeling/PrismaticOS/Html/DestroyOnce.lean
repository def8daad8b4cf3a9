import PrismaticOS.Html.Acyclic
import PrismaticOS.Library.Accesses

/-!
# What destroying a node uses and frees

`dom_node_destroy` takes the node out of the list of its parent, and then calls itself for each of
its children, which take themselves out of a list that is being destroyed.

## The model

`destroyLog` and `childrenLog` do what `domNodeDestroy` and `destroyChildren` do, and return what
they access, too. The strings and arrays of a node are left out.

## What is proved

* `destroyLog_destroys` — they do the same.
* `childrenLog_forest`, `destroyLog_forest` — what they access and leave, for every forest below the
  node.
* `destroy_once` — the nodes of the subtree are freed, each once, none is used after that, and the
  list of the former parent loses the node.
-/

namespace PrismaticOS.Html

open PrismaticOS.Library

variable {d d' : Dom} {s s' : RefDom} {c m n p y : ℕ} {fuel : ℕ} {f : Forest ℕ} {gone : List ℕ}
  {log : List (Access ℕ)}

/-! ### The accesses -/

/-- The accesses of `Dom.unlink`. The fields of the node stay while it is taken out. -/
def unlinkAccesses (d : Dom) (node : ℕ) : List (Access ℕ) :=
  .deref node ::
    if d.parent node = 0 then []
    else
      .deref (d.parent node) :: .deref (d.parent node) ::
        ((if d.prev node ≠ 0 then [.deref (d.prev node)] else []) ++
          if d.next node ≠ 0 then [.deref (d.next node)] else [])

mutual

/-- `dom_node_destroy`, with what it accesses. -/
def destroyLog : ℕ → RefDom → ℕ → Option (RefDom × List (Access ℕ))
  | 0, _, _ => none
  | fuel + 1, s, node =>
    if node = 0 then some (s, [])
    else
      let unlinked := { s with dom := s.dom.unlink node }
      (childrenLog fuel unlinked (unlinked.dom.first node)).map fun (s', log) =>
        (s'.free node, unlinkAccesses s.dom node ++ .deref node :: (log ++ [.free node]))

/-- Its loop over the children, with what it accesses. -/
def childrenLog : ℕ → RefDom → ℕ → Option (RefDom × List (Access ℕ))
  | 0, _, _ => none
  | fuel + 1, s, child =>
    if child = 0 then some (s, [])
    else
      let next := s.dom.next child
      (destroyLog fuel s child).bind fun (s, log) =>
        (childrenLog fuel s next).map fun (s, rest) => (s, .deref child :: (log ++ rest))

end

/-- The calls with their accesses are the calls. -/
theorem logs_destroy (fuel : ℕ) : ∀ s node,
    (destroyLog fuel s node).map Prod.fst = domNodeDestroy fuel s node ∧
      (childrenLog fuel s node).map Prod.fst = destroyChildren fuel s node := by
  induction fuel with
  | zero => exact fun s node => ⟨rfl, rfl⟩
  | succ fuel ih =>
    intro s node
    constructor
    · rw [destroyLog, domNodeDestroy]
      split_ifs
      · rfl
      · simp only [← (ih _ _).2, Option.map_map]
        rfl
    · rw [childrenLog, destroyChildren]
      split_ifs
      · rfl
      · simp only [← (ih s node).1, ← (ih _ (s.dom.next node)).2]
        cases destroyLog fuel s node with
        | none => rfl
        | some result =>
          simp only [Option.bind_some, Option.map_some, Option.map_map]
          rfl

theorem destroyLog_destroys (fuel : ℕ) (s : RefDom) (node : ℕ) :
    (destroyLog fuel s node).map Prod.fst = domNodeDestroy fuel s node :=
  (logs_destroy fuel s node).1

/-! ### Taking a node out -/

/-- A change of one node, if there is one. -/
theorem modify_if_nodes (b : Prop) [Decidable b] (d : Dom) (g : DomNode → DomNode)
    (h : b → y ≠ n) : (if b then d.modify n g else d).nodes y = d.nodes y := by
  split_ifs with hb
  · exact Dom.modify_of_ne d g (h hb)
  · rfl

/-- Only the parent and the neighbours change. -/
theorem unlink_nodes (hp : y ≠ d.parent c) (hprev : d.prev c ≠ 0 → y ≠ d.prev c)
    (hnext : d.next c ≠ 0 → y ≠ d.next c) : (d.unlink c).nodes y = d.nodes y := by
  by_cases hnone : d.parent c = 0
  · rw [Dom.unlink, if_pos hnone]
  rw [Dom.unlink, if_neg hnone]
  refine (modify_if_nodes _ _ _ ?_).trans <| (modify_if_nodes _ _ _ ?_).trans <|
    (modify_if_nodes _ _ _ fun _ => hp).trans (modify_if_nodes _ _ _ fun _ => hp)
  · -- the successor is read after the predecessor got it, which may only be the node itself
    have hread : (if d.prev c = 0 then d.next
        else Function.update d.next (d.prev c) (d.next c)) c = d.next c := by
      split_ifs
      · rfl
      · rw [Function.update_apply]
        split_ifs <;> rfl
    simpa [apply_ite Dom.next, apply_ite Dom.prev, hread] using hnext
  · simpa [apply_ite Dom.prev] using hprev

/-- The links of a node, if the node is the same. -/
theorem links_congr (h : d'.nodes y = d.nodes y) : d'.links.next y = d.links.next y ∧
    d'.links.prev y = d.links.prev y ∧ d'.links.first y = d.links.first y ∧
      d'.links.up y = d.links.up y := by
  simp [Dom.links, Dom.next, Dom.prev, Dom.first, Dom.parent, h]

/-- **The first child** is taken out: the next one is the first one. -/
theorem unlink_head (hc : c ≠ 0) (hp : d.parent c ≠ 0) (hfirst : d.first (d.parent c) = c)
    (hprev : d.prev c = 0) : (d.unlink c).first (d.parent c) = d.next c ∧
      ∀ y, y ≠ 0 → y ≠ d.parent c → (d.unlink c).links.next y = d.links.next y ∧
        (d.unlink c).links.prev y = (if y = d.next c then 0 else d.links.prev y) ∧
        (d.unlink c).links.first y = d.links.first y ∧ (d.unlink c).links.up y = d.links.up y := by
  have hfirsts : (d.unlink c).first = Function.update d.first (d.parent c) (d.next c) := by
    rw [Dom.unlink, if_neg hp]
    simp [apply_ite Dom.first, hfirst]
  have hself : d.prev c ≠ c := by
    rw [hprev]
    exact hc.symm
  refine ⟨?_, fun y hy hne => ⟨?_, ?_, ?_, ?_⟩⟩
  · rw [hfirsts, Function.update_self]
  · show (d.unlink c).next y = d.next y
    rw [unlink_next hp, IsDList.unlinkNext, if_neg (not_not.mpr hprev)]
  · show (d.unlink c).prev y = if y = d.next c then 0 else d.prev y
    rw [unlink_prev hp hself, IsDList.unlinkPrev]
    by_cases hnext : d.next c = 0
    · rw [if_neg (not_not.mpr hnext), hnext, if_neg hy]
    · rw [if_pos hnext, hprev, Function.update_apply]
  · show (d.unlink c).first y = d.first y
    rw [hfirsts, Function.update_of_ne hne]
  · show (d.unlink c).parent y = d.parent y
    rw [unlink_parent]

/-- The nodes that may be used to destroy a node: it and those below it, and those next to it. -/
def Touched (d : Dom) (c : ℕ) (f : Forest ℕ) (y : ℕ) : Prop :=
  y ∈ c :: f.nodes ∨ y ≠ 0 ∧ (y = d.parent c ∨ y = d.prev c ∨ y = d.next c)

theorem unlinkAccesses_touched {a : Access ℕ} (ha : a ∈ unlinkAccesses d c) :
    Touched d c f a.target := by
  rw [unlinkAccesses, List.mem_cons] at ha
  rcases ha with rfl | ha
  · exact .inl List.mem_cons_self
  by_cases hp : d.parent c = 0
  · rw [if_pos hp] at ha
    cases ha
  · rw [if_neg hp] at ha
    simp only [List.mem_cons, List.mem_append, List.mem_ite_nil_right, List.not_mem_nil,
      or_false] at ha
    rcases ha with rfl | rfl | ⟨hprev, rfl⟩ | ⟨hnext, rfl⟩
    · exact .inr ⟨hp, .inl rfl⟩
    · exact .inr ⟨hp, .inl rfl⟩
    · exact .inr ⟨hprev, .inr (.inl rfl)⟩
    · exact .inr ⟨hnext, .inr (.inr rfl)⟩

/-- Nothing is freed. -/
theorem unlinkAccesses_frees (d : Dom) (c : ℕ) : frees (unlinkAccesses d c) = [] := by
  unfold unlinkAccesses
  split_ifs <;> rfl

theorem unlinkAccesses_noneStale (d : Dom) (c : ℕ) : NoneStale [] (unlinkAccesses d c) := by
  unfold unlinkAccesses
  split_ifs <;> simp

/-! ### The calls -/

/-- What a call on `c` does, with the forest `f` below `c`. -/
structure DestroysTree (s : RefDom) (c : ℕ) (f : Forest ℕ) (s' : RefDom) (log : List (Access ℕ)) :
    Prop where
  /-- Other nodes change as when the node is taken out. -/
  kept : ∀ y, y ∉ c :: f.nodes → s'.dom.nodes y = (s.dom.unlink c).nodes y
  /-- What is freed. -/
  freed : (frees log).Perm (c :: f.nodes)
  /-- The order. -/
  noneStale : NoneStale [] log
  /-- What is used. -/
  touched : ∀ a ∈ log, Touched s.dom c f a.target

/-- What the loop over the children of `n` does, with the forest `f` below `n`. -/
structure DestroysForest (s : RefDom) (n : ℕ) (f : Forest ℕ) (s' : RefDom)
    (log : List (Access ℕ)) : Prop where
  /-- Other nodes stay. -/
  kept : ∀ y, y ∉ n :: f.nodes → s'.dom.nodes y = s.dom.nodes y
  /-- What is freed. -/
  freed : (frees log).Perm f.nodes
  /-- The order. -/
  noneStale : NoneStale [] log
  /-- What is used. -/
  touched : ∀ a ∈ log, a.target ∈ n :: f.nodes

/-- The loop on a forest below any node. -/
def LoopDestroys (f : Forest ℕ) : Prop :=
  ∀ (s : RefDom) (n : ℕ), n ≠ 0 → (n :: f.nodes).Nodup →
    Hangs s.dom.links n 0 (s.dom.first n) f →
    ∃ s' log, DestroysForest s n f s' log ∧
      ∀ fuel, 2 * f.nodes.length < fuel → childrenLog fuel s (s.dom.first n) = some (s', log)

/-- **A node** is destroyed, if the loop over its children ends. -/
theorem LoopDestroys.destroyLog (ih : LoopDestroys f) (hc : c ≠ 0) (hnd : (c :: f.nodes).Nodup)
    (hf : Hangs s.dom.links c 0 (s.dom.first c) f) (hparent : s.dom.parent c ∉ c :: f.nodes)
    (hprev : s.dom.prev c ∉ c :: f.nodes) (hnext : s.dom.next c ∉ c :: f.nodes) :
    ∃ s' log, DestroysTree s c f s' log ∧
      ∀ fuel, 2 * f.nodes.length + 1 < fuel → destroyLog fuel s c = some (s', log) := by
  have hsame : ∀ y ∈ c :: f.nodes, (s.dom.unlink c).nodes y = s.dom.nodes y := fun y hy =>
    unlink_nodes (ne_of_mem_of_not_mem hy hparent) (fun _ => ne_of_mem_of_not_mem hy hprev)
      fun _ => ne_of_mem_of_not_mem hy hnext
  have hfirst : (s.dom.unlink c).first c = s.dom.first c :=
    congrArg DomNode.firstChild (hsame c List.mem_cons_self)
  have hf' : Hangs (s.dom.unlink c).links c 0 ((s.dom.unlink c).first c) f := by
    rw [hfirst]
    exact hf.congr fun y hy => links_congr (hsame y (List.mem_cons_of_mem c hy))
  obtain ⟨s', log, hdone, hloop⟩ := ih { s with dom := s.dom.unlink c } c hc hnd hf'
  have hfresh : c ∉ frees log := fun hmem =>
    (List.nodup_cons.mp hnd).1 (hdone.freed.subset hmem)
  refine ⟨s'.free c, unlinkAccesses s.dom c ++ .deref c :: (log ++ [.free c]), ⟨?_, ?_, ?_, ?_⟩,
    fun fuel hfuel => ?_⟩
  · intro y hy
    rw [← hdone.kept y hy]
    exact Dom.modify_of_ne s'.dom (fun _ => blankNode .element) (List.ne_of_not_mem_cons hy)
  · simp only [frees_append, unlinkAccesses_frees, frees_deref, frees_free, frees_nil,
      List.nil_append]
    exact (List.perm_append_singleton c _).trans (hdone.freed.cons c)
  · simp only [noneStale_append, unlinkAccesses_frees, noneStale_deref, noneStale_free,
      noneStale_nil, List.append_nil, List.not_mem_nil, not_false_eq_true, true_and, and_true]
    exact ⟨unlinkAccesses_noneStale s.dom c, hdone.noneStale, hfresh⟩
  · intro a ha
    simp only [List.mem_append, List.mem_cons, List.not_mem_nil, or_false] at ha
    rcases ha with ha | rfl | ha | rfl
    · exact unlinkAccesses_touched ha
    · exact .inl List.mem_cons_self
    · exact .inl (hdone.touched a ha)
    · exact .inl List.mem_cons_self
  · obtain ⟨fuel, rfl⟩ := Nat.exists_eq_add_of_le' (Nat.zero_lt_of_lt hfuel)
    rw [Html.destroyLog, if_neg hc]
    simp only [hloop fuel (by omega)]
    rfl

/-- `c` is the first child of `n`: `below` is the forest below it, and `after` are the trees behind
it. -/
structure FirstChild (d : Dom) (n c : ℕ) (below after : Forest ℕ) : Prop where
  /-- It is the first one. -/
  first : d.first n = c
  /-- It is a node. -/
  ne_zero : c ≠ 0
  /-- Nothing is in front of it. -/
  prev : d.prev c = 0
  /-- Its parent. -/
  parent : d.parent c = n
  /-- The next one is the root of a tree behind it. -/
  next_mem : d.next c ≠ 0 → d.next c ∈ after.nodes
  /-- The parent is not in its tree. -/
  outside : n ∉ c :: below.nodes
  /-- The trees behind it are apart from both. -/
  apart : ∀ q ∈ after.nodes, q ∉ c :: below.nodes ∧ q ≠ n
  /-- The zero is no node. -/
  zero_notMem : 0 ∉ c :: below.nodes

theorem FirstChild.of_hangs {below after : Forest ℕ}
    (hnd : (n :: (Forest.tree c below after).nodes).Nodup)
    (hf : Hangs d.links n 0 (d.first n) (.tree c below after)) :
    FirstChild d n c below after := by
  have hzero : 0 ∉ (Forest.tree c below after).nodes := fun hmem => hf.ne_zero hmem rfl
  obtain ⟨hfirst, hc, hprev, hparent, -, hafter⟩ := hf
  obtain ⟨hnotin, hnd'⟩ := List.nodup_cons.mp hnd
  obtain ⟨-, -, hapart⟩ := List.nodup_append.mp
    (show ((c :: below.nodes) ++ after.nodes).Nodup from hnd')
  refine ⟨hfirst, hc, hprev, hparent, fun hne => after.roots_subset (hafter.head_mem hne),
    fun hmem => hnotin (List.mem_append_left after.nodes hmem), fun q hq => ⟨fun hqt =>
      hapart q hqt q hq rfl, ?_⟩, fun hmem => hzero (List.mem_append_left after.nodes hmem)⟩
  rintro rfl
  exact hnotin (List.mem_append_right (c :: below.nodes) hq)

section
variable {below after : Forest ℕ} {s₁ : RefDom} {log log' : List (Access ℕ)}

/-- The next child is not in its tree. -/
theorem FirstChild.next_notMem (h : FirstChild d n c below after) :
    d.next c ∉ c :: below.nodes := by
  by_cases hnone : d.next c = 0
  · rw [hnone]
    exact h.zero_notMem
  · exact (h.apart _ (h.next_mem hnone)).1

/-- After it is destroyed the trees behind it are all that hangs below the parent. -/
theorem FirstChild.rest (h : FirstChild s.dom n c below after) (hn : n ≠ 0)
    (hdone : DestroysTree s c below s₁ log) (hnd : after.nodes.Nodup)
    (hafter : Hangs s.dom.links n c (s.dom.next c) after) :
    s₁.dom.first n = s.dom.next c ∧ Hangs s₁.dom.links n 0 (s₁.dom.first n) after := by
  have hparent := h.parent
  obtain ⟨hhead, hlinks⟩ :=
    unlink_head h.ne_zero (by rwa [hparent]) (by rw [hparent, h.first]) h.prev
  have hfirst : s₁.dom.first n = s.dom.next c := by
    rw [← hhead, hparent]
    exact congrArg DomNode.firstChild (hdone.kept n h.outside)
  refine ⟨hfirst, ?_⟩
  rw [hfirst]
  refine hafter.relink hnd fun q hq => ?_
  obtain ⟨hq_tree, hq_parent⟩ := h.apart q hq
  obtain ⟨h₁, h₂, h₃, h₄⟩ := hlinks q (hafter.ne_zero hq) (by rwa [hparent])
  obtain ⟨k₁, k₂, k₃, k₄⟩ := links_congr (hdone.kept q hq_tree)
  exact ⟨k₁.trans h₁, k₂.trans h₂, k₃.trans h₃, k₄.trans h₄⟩

/-- The child, and then the trees behind it. -/
theorem FirstChild.join (h : FirstChild s.dom n c below after)
    (hdone : DestroysTree s c below s₁ log) (hdone' : DestroysForest s₁ n after s' log') :
    DestroysForest s n (.tree c below after) s' (.deref c :: (log ++ log')) := by
  have hparent := h.parent
  refine ⟨?_, ?_, ?_, ?_⟩
  · intro y hy
    simp only [Forest.nodes, List.mem_cons, List.mem_append, not_or] at hy
    obtain ⟨hyn, hyc, hyb, hya⟩ := hy
    have hkept : (s.dom.unlink c).nodes y = s.dom.nodes y := by
      refine unlink_nodes (by rwa [hparent]) (fun hne => absurd h.prev hne) fun hne => ?_
      rintro rfl
      exact hya (h.next_mem hne)
    rw [hdone'.kept y (by simp [hyn, hya]), hdone.kept y (by simp [hyc, hyb]), hkept]
  · rw [frees_deref, frees_append]
    exact hdone.freed.append hdone'.freed
  · have htargets : ∀ a ∈ log', a.target ∉ frees log := by
      intro a ha hmem
      rcases List.mem_cons.mp (hdone'.touched a ha) with heq | hin
      · exact h.outside (heq ▸ hdone.freed.subset hmem)
      · exact (h.apart _ hin).1 (hdone.freed.subset hmem)
    rw [noneStale_deref, noneStale_append, List.append_nil]
    exact ⟨List.not_mem_nil, hdone.noneStale, hdone'.noneStale.weaken htargets⟩
  · intro a ha
    simp only [Forest.nodes, List.mem_cons, List.mem_append] at ha ⊢
    rcases ha with rfl | ha | ha
    · exact .inr (.inl rfl)
    · rcases hdone.touched a ha with hin | ⟨hne, heq | heq | heq⟩
      · rcases List.mem_cons.mp hin with heq | hin
        · exact .inr (.inl heq)
        · exact .inr (.inr (.inl hin))
      · exact .inl (heq.trans hparent)
      · exact absurd (heq.trans h.prev) hne
      · exact .inr (.inr (.inr (heq ▸ h.next_mem (heq ▸ hne))))
    · rcases List.mem_cons.mp (hdone'.touched a ha) with heq | hin
      · exact .inl heq
      · exact .inr (.inr (.inr hin))

end

/-- **The loop over the children** destroys the whole forest below a node. -/
theorem childrenLog_forest (f : Forest ℕ) : LoopDestroys f := by
  induction f with
  | nil =>
    intro s n _ _ hf
    refine ⟨s, [], ⟨fun _ _ => rfl, .refl _, trivial, nofun⟩, fun fuel hfuel => ?_⟩
    obtain ⟨fuel, rfl⟩ := Nat.exists_eq_add_of_le' (Nat.zero_lt_of_lt hfuel)
    exact if_pos hf
  | tree c below after ihb iha =>
    intro s n hn hnd hf
    have hchild := FirstChild.of_hangs hnd hf
    obtain ⟨-, hc, -, -, hbelow, hafter⟩ := hf
    obtain ⟨hndb, hnda, -⟩ := List.nodup_append.mp
      (show ((c :: below.nodes) ++ after.nodes).Nodup from (List.nodup_cons.mp hnd).2)
    obtain ⟨s₁, log, hdone, hcall⟩ := ihb.destroyLog hc hndb hbelow
      (by rw [hchild.parent]; exact hchild.outside)
      (by rw [hchild.prev]; exact hchild.zero_notMem) hchild.next_notMem
    obtain ⟨hfirst, hrest⟩ := hchild.rest hn hdone hnda hafter
    have hn_after : n ∉ after.nodes := fun hmem => (hchild.apart n hmem).2 rfl
    obtain ⟨s', log', hdone', hloop⟩ := iha s₁ n hn (List.nodup_cons.mpr ⟨hn_after, hnda⟩) hrest
    refine ⟨s', .deref c :: (log ++ log'), hchild.join hdone hdone', fun fuel hfuel => ?_⟩
    obtain ⟨fuel, rfl⟩ := Nat.exists_eq_add_of_le' (Nat.zero_lt_of_lt hfuel)
    simp only [Forest.nodes, List.length_cons, List.length_append] at hfuel
    rw [hchild.first, childrenLog, if_neg hc, hcall fuel (by omega), ← hfirst]
    simp only [Option.bind_some, hloop fuel (by omega)]
    rfl

/-! ### The subtree -/

/-- The nodes of a subtree are those from which the parents lead to its root. -/
theorem DomTree.mem_subtree (h : DomTree d) (hn : n ≠ 0) (hf : Hangs d.links n 0 (d.first n) f) :
    m ∈ n :: f.nodes ↔ LeadsTo d.parent m n := by
  obtain ⟨kids, hk⟩ := h.inv.lists
  constructor
  · intro hm
    rcases List.mem_cons.mp hm with rfl | hm
    · exact .refl
    · exact hf.leadsTo_parent hm
  · intro hleads
    induction hleads using Relation.ReflTransGen.head_induction_on with
    | refl => exact List.mem_cons_self
    | @head x y hstep _ ih =>
      apply List.mem_cons_of_mem
      have hy : y ≠ 0 := by
        rintro rfl
        exact (List.mem_cons.mp ih).elim (fun heq => hn heq.symm) fun hin => hf.ne_zero hin rfl
      have hx : x ≠ 0 := by
        rintro rfl
        exact hy (hstep.symm.trans h.null)
      have hmem : x ∈ kids y := (hk.mem y x hy).mpr ⟨hx, hstep⟩
      -- the children of a node of the subtree are the roots of the forest below it
      rcases List.mem_cons.mp ih with rfl | hin
      · rw [← hf.threads.seg.unique (hk.list y hy).seg] at hmem
        exact f.roots_subset hmem
      · obtain ⟨g, hg, hsub⟩ := hf.threads.below hin
        rw [← hg.seg.unique (hk.list y hy).seg] at hmem
        exact hsub.subset (List.mem_cons_of_mem y (g.roots_subset hmem))

/-- A sibling is not in the subtree. -/
theorem DomTree.sibling_apart (h : DomTree d) (hn : n ≠ 0)
    (hf : Hangs d.links n 0 (d.first n) f) (hparent : d.parent y = d.parent n) (hne : y ≠ n) :
    y ∉ n :: f.nodes := fun hmem =>
  h.not_above_itself hn (((h.mem_subtree hn hf).mp hmem).of_sibling hparent hne)

/-- The parent and the neighbours are not in the subtree. -/
theorem DomTree.neighbours_apart (h : DomTree d) (hn : n ≠ 0)
    (hf : Hangs d.links n 0 (d.first n) f) : d.parent n ∉ n :: f.nodes ∧
      d.prev n ∉ n :: f.nodes ∧ d.next n ∉ n :: f.nodes := by
  obtain ⟨kids, hk⟩ := h.inv.lists
  have hzero : 0 ∉ n :: f.nodes := by
    intro hmem
    exact (List.mem_cons.mp hmem).elim (fun heq => hn heq.symm) fun hin => hf.ne_zero hin rfl
  by_cases hp : d.parent n = 0
  · obtain ⟨hnext, hprev⟩ := hk.alone n hp
    rw [hp, hnext, hprev]
    exact ⟨hzero, hzero, hzero⟩
  have hlist := hk.list _ hp
  have hmem : n ∈ kids (d.parent n) := (hk.mem _ n hp).mpr ⟨hn, rfl⟩
  have hapart : ∀ y ∈ kids (d.parent n), y ≠ n → y ∉ n :: f.nodes := fun y hy =>
    h.sibling_apart hn hf ((hk.mem _ y hp).mp hy).2
  refine ⟨fun hin => h.not_above_itself hn ((h.mem_subtree hn hf).mp hin), ?_, ?_⟩
  · by_cases hprev : d.prev n = 0
    · rwa [hprev]
    · exact hapart _ (hlist.prev_mem hmem hprev) (hlist.prev_ne hmem)
  · by_cases hnext : d.next n = 0
    · rwa [hnext]
    · exact hapart _ (hlist.next_mem hmem hnext) (hlist.next_ne hmem)

/-- The nodes of a subtree were made. -/
theorem DomTree.below_created (h : DomTree d) (hn : n ≠ 0) (hm : LeadsTo d.parent m n)
    (hne : m ≠ n) : m ≤ d.count := by
  by_contra hlate
  have hparent := h.inv.unused m (not_le.mp hlate)
  rcases Relation.ReflTransGen.cases_head hm with heq | ⟨_, rfl, hup⟩
  · exact hne heq
  · rw [hparent] at hup
    exact hn (leadsTo_zero h.null hup)

/-- What destroying `n` means: its subtree is freed. -/
structure DestroyedOnce (d : Dom) (n : ℕ) (d' : Dom) (log : List (Access ℕ)) : Prop where
  /-- The nodes of the subtree are freed, and no others. -/
  freed : ∀ m, m ∈ frees log ↔ LeadsTo d.parent m n
  /-- They are freed once. -/
  once : (frees log).Nodup
  /-- No node is used after it was freed. -/
  noneStale : NoneStale [] log
  /-- The list of the former parent, forwards and backwards, is the old one without the node. -/
  siblings : d.parent n ≠ 0 → ∀ xs, ChildList d (d.parent n) xs →
    ChildList d' (d.parent n) (xs.erase n) ∧
      Seg d'.prev (d'.last (d.parent n)) (xs.erase n).reverse 0

/-- **The list of the former parent.** -/
theorem DestroysTree.siblings (h : DomTree s.dom) (hn : n ≠ 0)
    (hf : Hangs s.dom.links n 0 (s.dom.first n) f) (hdone : DestroysTree s n f s' log)
    (hp : s.dom.parent n ≠ 0) {xs : List ℕ} (hxs : ChildList s.dom (s.dom.parent n) xs) :
    ChildList s'.dom (s.dom.parent n) (xs.erase n) ∧
      Seg s'.dom.prev (s'.dom.last (s.dom.parent n)) (xs.erase n).reverse 0 := by
  obtain ⟨kids, hk⟩ := h.inv.lists
  obtain rfl := (hk.childList_iff hp).mp hxs
  have hcut : Lists (s.dom.cut ∅) kids := by rwa [cut_empty]
  have hu := hcut.unlink hn (Finset.notMem_empty n)
  have hparent := hdone.kept _ (h.neighbours_apart hn hf).1
  have hlist := hu.list _ hp
  have hlast := hu.last _ hp
  rw [cut_first] at hlist
  rw [cut_last] at hlast
  have hsame : ∀ y ∈ (kids (s.dom.parent n)).erase n,
      s'.dom.next y = ((s.dom.unlink n).cut (insert n ∅)).next y ∧
        s'.dom.prev y = ((s.dom.unlink n).cut (insert n ∅)).prev y := by
    intro y hy
    have hne : y ≠ n := fun heq => ((hk.list _ hp).nodup.mem_erase_iff.mp hy).1 heq
    have hsibling := ((hk.mem _ y hp).mp (List.mem_of_mem_erase hy)).2
    have hkept := hdone.kept y (h.sibling_apart hn hf hsibling hne)
    rw [cut_next, cut_prev, if_neg (by simpa using hne), if_neg (by simpa using hne)]
    exact ⟨congrArg DomNode.nextSibling hkept, congrArg DomNode.prevSibling hkept⟩
  have hfirst : s'.dom.first (s.dom.parent n) = (s.dom.unlink n).first (s.dom.parent n) :=
    congrArg DomNode.firstChild hparent
  have hlast' : s'.dom.last (s.dom.parent n) = (s.dom.unlink n).last (s.dom.parent n) :=
    congrArg DomNode.lastChild hparent
  have hlist' := hlist.congr (fun y hy => (hsame y hy).1) fun y hy => (hsame y hy).2
  rw [← hfirst] at hlist'
  refine ⟨hlist'.seg, ?_⟩
  rw [hlast', hlast]
  exact hlist'.seg_reverse

/-- **Destroying a node** of a forest frees every node of its subtree once and no other one, uses
no node that was freed, and takes the node out of the list of its parent. -/
theorem destroy_once (h : DomTree s.dom) (hn : Created s.dom n) :
    ∃ s' log, DestroyedOnce s.dom n s'.dom log ∧
      ∀ fuel, 2 * s.dom.count + 1 < fuel → destroyLog fuel s n = some (s', log) := by
  obtain ⟨f, hf⟩ := h.hangs hn
  have hnd : (n :: f.nodes).Nodup :=
    List.nodup_cons.mpr ⟨hf.parent_not_mem h.null h.roots, hf.nodup h.null h.roots⟩
  obtain ⟨hparent, hprev, hnext⟩ := h.neighbours_apart hn.1 hf
  obtain ⟨s', log, hdone, hcall⟩ := (childrenLog_forest f).destroyLog hn.1 hnd hf hparent hprev hnext
  refine ⟨s', log, ⟨fun m => ?_, ?_, hdone.noneStale, fun hp xs hxs => ?_⟩, fun fuel hfuel => ?_⟩
  · rw [hdone.freed.mem_iff, h.mem_subtree hn.1 hf]
  · have honce := hdone.noneStale.nodup List.nodup_nil
    rwa [List.append_nil] at honce
  · exact hdone.siblings h hn.1 hf hp hxs
  · have hlength : f.nodes.length < s.dom.count + 1 := by
      apply hf.length_lt hnd.of_cons _ (Nat.succ_pos _)
      intro x hx
      apply Nat.lt_succ_of_le
      apply h.below_created hn.1 (hf.leadsTo_parent hx)
      rintro rfl
      exact (List.nodup_cons.mp hnd).1 hx
    exact hcall fuel (by omega)

/-- Two nodes, the second one a child of the first. -/
def parentAndChild : Dom :=
  domNodeAppendChild (domElementCreate (domElementCreate noNodes none).1 none).1 1 2

theorem parentAndChild_tree : DomTree parentAndChild := by
  have hmade : DomTree (domElementCreate (domElementCreate noNodes none).1 none).1 :=
    (noNodes_tree.add ⟨rfl, rfl, rfl, rfl, rfl⟩).add ⟨rfl, rfl, rfl, rfl, rfl⟩
  have hok : NotBelowItself (domElementCreate (domElementCreate noNodes none).1 none).1
      (.append 1 2) := by
    intro hleads
    rcases Relation.ReflTransGen.cases_head hleads with heq | ⟨_, rfl, hup⟩
    · cases heq
    · cases leadsTo_zero hmade.null hup
  exact hmade.step hok rfl

/-- The child is destroyed. -/
theorem destroy_child_once :
    ∃ s' log, DestroyedOnce parentAndChild 2 s'.dom log ∧
      ∀ fuel, 2 * parentAndChild.count + 1 < fuel →
        destroyLog fuel ⟨parentAndChild, fun _ => 1, fun _ => 0, []⟩ 2 = some (s', log) :=
  @destroy_once ⟨parentAndChild, fun _ => 1, fun _ => 0, []⟩ 2 parentAndChild_tree
    ⟨by decide, by decide⟩

end PrismaticOS.Html
