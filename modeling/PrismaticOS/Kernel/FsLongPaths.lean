import PrismaticOS.Kernel.FsPaths

/-!
# Long paths

`fs_lookup` and `fs_create` of `kernel/fs.c` with paths of any length. Both copy the path into a
buffer of 512 bytes and use what fits into it, and `vfs_create_node` copies 255 bytes of the name.
What is cut off is not reported.

## What is proved

* `hasPath_unique` — in a tree a node has one path.
* `long_path_iff` — for every absolute path: the two functions return no node of another path
  exactly if the cut does no harm, and `NULL` exactly if what is left of the path names nothing.
* `long_path_aliased` — a path of 513 bytes for which they do neither.
-/

namespace PrismaticOS.Kernel

open PrismaticOS.Library

/-! ### Full paths -/

/-- From `node`, names of children lead to `target`. -/
def Leads (s : Fs) : ℕ → List (List UInt8) → ℕ → Prop
  | node, [], target => node = target
  | node, name :: names, target =>
    ∃ child ∈ (s.nodes node).children, (s.nodes child).name = name ∧ Leads s child names target

/-- The names on the way from the root to a node. -/
def HasPath (s : Fs) (names : List (List UInt8)) (node : ℕ) : Prop := Leads s s.vfsRoot names node

/-- The nodes are a tree. -/
structure VfsTree (s : Fs) : Prop where
  /-- They were made. -/
  made : TreeOk s
  /-- A node is in one directory. -/
  parent : ∀ m m' c, c ∈ (s.nodes m).children → c ∈ (s.nodes m').children → m = m'
  /-- The root is in none. -/
  root : ∀ m, s.vfsRoot ∉ (s.nodes m).children

/-- A path that does not fit into the buffers: of 512 bytes or more, or with a component of more
than 255. -/
def LongPath (path : List UInt8) : Prop :=
  512 ≤ path.length ∨ ∃ name ∈ tokens slash path, 255 < name.length

/-! ### What is promised -/

/-- What `fs_lookup` returns and where `fs_create` makes a node is what the path says. -/
structure NeverAliased (heap : Allocator) (s : Fs) (path : List UInt8) (mode : ℕ) : Prop where
  /-- A node that is found has this path. -/
  lookup : ∀ node, fsLookup s path = some node → HasPath s (tokens slash path) node
  /-- A node that is made has the last component as its name, and is in the directory before it. -/
  create : ∀ s' node, fsCreate heap s path mode = (s', some node) →
    (s'.nodes node).name = lastField slash path ∧
      ∀ parent, node ∈ (s'.nodes parent).children →
        HasPath s (tokens slash (beforeLast slash path)) parent

/-- Both return `NULL`. -/
def ReturnsNull (heap : Allocator) (s : Fs) (path : List UInt8) (mode : ℕ) : Prop :=
  fsLookup s path = none ∧ (fsCreate heap s path mode).2 = none

/-! ### The conditions -/

/-- The path leads to no node. -/
def NamesNothing (s : Fs) (path : List UInt8) : Prop :=
  ∀ node, ¬ Follows s s.vfsRoot (tokens slash path) node

/-- The path leads to no directory, or it is empty. -/
def NoDirectory (s : Fs) (path : List UInt8) : Prop :=
  path = [] ∨ ∀ node, Follows s s.vfsRoot (tokens slash path) node → (s.nodes node).isDir = false

/-- Nothing is cut off that counts, or what is left of the path names nothing. -/
structure CutHarmless (heap : Allocator) (s : Fs) (path : List UInt8) : Prop where
  /-- For `fs_lookup`. -/
  lookup : tokens slash (path.take 511) = tokens slash path ∨ NamesNothing s (path.take 511)
  /-- For `fs_create`. -/
  create : (tokens slash (beforeLast slash (path.take 511)) = tokens slash (beforeLast slash path) ∧
      (lastField slash (path.take 511)).take 255 = lastField slash path) ∨
    NoDirectory s (beforeLast slash (path.take 511)) ∨ heap s.allocs = none

variable {heap : Allocator} {s : Fs} {path : List UInt8} {names names' : List (List UInt8)}
  {name : List UInt8} {node target mode : ℕ}

/-! ### A node has one path -/

theorem leads_concat : Leads s node (names ++ [name]) target ↔
    ∃ m, Leads s node names m ∧ target ∈ (s.nodes m).children ∧ (s.nodes target).name = name := by
  induction names generalizing node with
  | nil =>
    constructor
    · rintro ⟨child, hchild, hname, rfl⟩
      exact ⟨node, rfl, hchild, hname⟩
    · rintro ⟨m, rfl, hchild, hname⟩
      exact ⟨target, hchild, hname, rfl⟩
  | cons first names ih =>
    constructor
    · rintro ⟨child, hchild, hfirst, hleads⟩
      obtain ⟨m, hm, htarget⟩ := ih.mp hleads
      exact ⟨m, ⟨child, hchild, hfirst, hm⟩, htarget⟩
    · rintro ⟨m, ⟨child, hchild, hfirst, hm⟩, htarget⟩
      exact ⟨child, hchild, hfirst, ih.mpr ⟨m, hm, htarget⟩⟩

/-- **A node of a tree has one path.** -/
theorem hasPath_unique (h : VfsTree s) (hp : HasPath s names target)
    (hq : HasPath s names' target) : names = names' := by
  induction names using List.reverseRecOn generalizing names' target with
  | nil =>
    obtain rfl : s.vfsRoot = target := hp
    rcases List.eq_nil_or_concat' names' with rfl | ⟨before, name, rfl⟩
    · rfl
    · obtain ⟨m, -, hroot, -⟩ := leads_concat.mp hq
      exact absurd hroot (h.root m)
  | append_singleton names name ih =>
    obtain ⟨m, hm, hchild, hname⟩ := leads_concat.mp hp
    rcases List.eq_nil_or_concat' names' with rfl | ⟨before, name', rfl⟩
    · obtain rfl : s.vfsRoot = target := hq
      exact absurd hchild (h.root m)
    · obtain ⟨m', hm', hchild', hname'⟩ := leads_concat.mp hq
      obtain rfl := h.parent m m' target hchild hchild'
      rw [ih hm hm', ← hname, ← hname']

/-- The search goes from child to child. -/
theorem Follows.leads (h : Follows s node names target) : Leads s node names target := by
  induction names generalizing node with
  | nil => exact h
  | cons name names ih =>
    obtain ⟨child, hchild, hrest⟩ := h
    obtain ⟨hmem, hname⟩ := vfsFindChild_mem hchild
    exact ⟨child, hmem, hname, ih hrest⟩

/-! ### The search -/

/-- **`fs_lookup`** follows what is left of the path. -/
theorem fsLookup_eq_some_iff (hhead : path.head? = some slash) :
    fsLookup s path = some node ↔ Follows s s.vfsRoot (tokens slash (path.take 511)) node := by
  rw [fsLookup_of_head hhead, walkFrom_eq_some_iff]

theorem fsLookup_eq_none_iff (hhead : path.head? = some slash) :
    fsLookup s path = none ↔ NamesNothing s (path.take 511) := by
  rw [Option.eq_none_iff_forall_ne_some]
  exact forall_congr' fun node => not_congr (fsLookup_eq_some_iff hhead)

theorem lookup_aliased_iff (h : VfsTree s) (hhead : path.head? = some slash) :
    (∀ node, fsLookup s path = some node → HasPath s (tokens slash path) node) ↔
      tokens slash (path.take 511) = tokens slash path ∨ NamesNothing s (path.take 511) := by
  constructor
  · intro hpath
    rw [or_iff_not_imp_right, NamesNothing, not_forall_not]
    rintro ⟨node, hfollows⟩
    exact hasPath_unique h hfollows.leads (hpath node ((fsLookup_eq_some_iff hhead).mpr hfollows))
  · rintro (hsame | hnothing) node hfound
    · rw [← hsame]
      exact ((fsLookup_eq_some_iff hhead).mp hfound).leads
    · exact absurd ((fsLookup_eq_some_iff hhead).mp hfound) (hnothing node)

/-! ### The node that is made -/

/-- The directory that is left of the path. -/
theorem follows_dir (hhead : path.head? = some slash) (hdir : beforeLast slash (path.take 511) ≠ []) :
    fsLookup s (beforeLast slash (path.take 511)) = some node ↔
      Follows s s.vfsRoot (tokens slash (beforeLast slash (path.take 511))) node := by
  have hprefix : beforeLast slash (path.take 511) <+: path :=
    (List.take_prefix _ _).trans (List.take_prefix _ _)
  have hlen : (beforeLast slash (path.take 511)).length ≤ 511 := by
    rw [beforeLast, List.length_take, List.length_take]
    omega
  rw [fsLookup_eq_some_iff, List.take_of_length_le hlen]
  obtain ⟨rest, hrest⟩ := hprefix
  rw [← hrest, List.head?_append] at hhead
  cases hfirst : (beforeLast slash (path.take 511)).head? with
  | none => exact absurd (List.head?_eq_none_iff.mp hfirst) hdir
  | some c =>
    rw [hfirst] at hhead
    exact hhead

theorem creationTarget_eq_none_iff (hhead : path.head? = some slash) :
    creationTarget s path = none ↔ NoDirectory s (beforeLast slash (path.take 511)) := by
  rw [creationTarget, if_pos hhead]
  dsimp only
  by_cases hdir : beforeLast slash (path.take 511) = []
  · rw [if_pos hdir]
    exact ⟨fun _ => .inl hdir, fun _ => rfl⟩
  rw [if_neg hdir, NoDirectory, or_iff_right hdir, Option.bind_eq_none_iff]
  refine forall_congr' fun node => ?_
  rw [follows_dir hhead hdir]
  refine imp_congr_right fun _ => ?_
  cases (s.nodes node).isDir <;> simp

/-- The directories that a node that was made is in. -/
theorem created_parent {parent m : ℕ} (h : TreeOk s) (hp : parent < s.nextNode) :
    s.nextNode ∈ ((created s parent name mode).nodes m).children ↔ m = parent := by
  have hnew : ∀ m, s.nextNode ∉ (s.nodes m).children := fun m hmem =>
    lt_irrefl _ (h.children m _ hmem)
  by_cases hm : m = s.nextNode
  · rw [hm, created_new_children s hp]
    exact ⟨nofun, fun heq => absurd heq hp.ne'⟩
  · rw [created_old hm]
    dsimp only
    by_cases hmp : m = parent
    · rw [if_pos hmp]
      exact ⟨fun _ => hmp, fun _ => List.mem_cons_self⟩
    · rw [if_neg hmp]
      exact ⟨fun hmem => absurd hmem (hnew m), fun heq => absurd heq hmp⟩

theorem create_aliased_iff (heap : Allocator) (mode : ℕ) (h : VfsTree s)
    (hhead : path.head? = some slash) :
    (∀ s' node, fsCreate heap s path mode = (s', some node) →
      (s'.nodes node).name = lastField slash path ∧
        ∀ parent, node ∈ (s'.nodes parent).children →
          HasPath s (tokens slash (beforeLast slash path)) parent) ↔
      (tokens slash (beforeLast slash (path.take 511)) = tokens slash (beforeLast slash path) ∧
        (lastField slash (path.take 511)).take 255 = lastField slash path) ∨
      NoDirectory s (beforeLast slash (path.take 511)) ∨ heap s.allocs = none := by
  rcases fsCreate_cases heap s path mode with
    ⟨hnone, hcall⟩ | ⟨target, -, hheap, hcall⟩ | ⟨parent, name, memory, htarget, hheap, hcall⟩
  · rw [hcall]
    exact ⟨fun _ => .inr (.inl ((creationTarget_eq_none_iff hhead).mp hnone)), fun _ _ _ => nofun⟩
  · rw [hcall]
    exact ⟨fun _ => .inr (.inr hheap), fun _ _ _ => nofun⟩
  -- a node is made, in the directory that the rest of the path leads to
  have hsome : ¬ (NoDirectory s (beforeLast slash (path.take 511)) ∨ heap s.allocs = none) := by
    rw [← creationTarget_eq_none_iff hhead, htarget, hheap]
    nofun
  have hlt := creationTarget_lt h.made htarget
  obtain ⟨hparent, -, rfl⟩ := creationTarget_spec htarget
  have hdir : beforeLast slash (path.take 511) ≠ [] := fun hnil => hsome (.inl (.inl hnil))
  have hpath := ((follows_dir hhead hdir).mp hparent).leads
  rw [or_iff_left hsome, hcall]
  constructor
  · intro hall
    obtain ⟨hname, hparents⟩ := hall _ _ rfl
    rw [(created_new s parent _ mode).1] at hname
    exact ⟨hasPath_unique h hpath (hparents parent ((created_parent h.made hlt).mpr rfl)), hname⟩
  · rintro ⟨hsame, hname⟩ s' node hmade
    obtain ⟨rfl, hnode⟩ := Prod.mk.inj hmade
    obtain rfl := Option.some.inj hnode
    refine ⟨(created_new s parent _ mode).1.trans hname, fun m hm => ?_⟩
    rw [(created_parent h.made hlt).mp hm, ← hsame]
    exact hpath

theorem fsCreate_none_iff (heap : Allocator) (mode : ℕ) (hhead : path.head? = some slash) :
    (fsCreate heap s path mode).2 = none ↔
      NoDirectory s (beforeLast slash (path.take 511)) ∨ heap s.allocs = none := by
  rw [← creationTarget_eq_none_iff hhead]
  rcases fsCreate_cases heap s path mode with
    ⟨hnone, hcall⟩ | ⟨target, -, hheap, hcall⟩ | ⟨parent, name, memory, htarget, hheap, hcall⟩
  · rw [hcall]
    exact ⟨fun _ => .inl hnone, fun _ => rfl⟩
  · rw [hcall]
    exact ⟨fun _ => .inr hheap, fun _ => rfl⟩
  · rw [hcall, htarget, hheap]
    exact ⟨nofun, fun hnone => by rcases hnone with hnone | hnone <;> cases hnone⟩

/-- **Long paths**: what is found and made is what the path says exactly if nothing that counts is
cut off, or what is left names nothing; and `NULL` is returned exactly if what is left names
nothing. -/
theorem long_path_iff (heap : Allocator) (s : Fs) (path : List UInt8) (mode : ℕ) (h : VfsTree s)
    (hhead : path.head? = some slash) :
    (NeverAliased heap s path mode ↔ CutHarmless heap s path) ∧
      (ReturnsNull heap s path mode ↔ NamesNothing s (path.take 511) ∧
        (NoDirectory s (beforeLast slash (path.take 511)) ∨ heap s.allocs = none)) := by
  refine ⟨⟨fun hok => ⟨?_, ?_⟩, fun hok => ⟨?_, ?_⟩⟩, ?_⟩
  · exact (lookup_aliased_iff h hhead).mp hok.lookup
  · exact (create_aliased_iff heap mode h hhead).mp hok.create
  · exact (lookup_aliased_iff h hhead).mpr hok.lookup
  · exact (create_aliased_iff heap mode h hhead).mpr hok.create
  · exact and_congr (fsLookup_eq_none_iff hhead) (fsCreate_none_iff heap mode hhead)

theorem oneFile_children (m : ℕ) : (oneFile.nodes m).children = if m = 0 then [1] else [] := by
  by_cases h₀ : m = 0
  · subst h₀
    rfl
  · rw [if_neg h₀]
    by_cases h₁ : m = 1
    · subst h₁
      rfl
    · simp [oneFile, vfsAddChild, Fs.setNode, fsEmpty, h₀, h₁]
      rfl

theorem oneFile_tree : VfsTree oneFile where
  made := by
    refine ⟨by decide, fun m c hc => ?_⟩
    rw [oneFile_children] at hc
    split at hc
    · rw [List.mem_singleton.mp hc]
      decide
    · cases hc
  parent m m' c hc hc' := by
    have hroot : ∀ k, c ∈ (oneFile.nodes k).children → k = 0 := by
      intro k hk
      rw [oneFile_children] at hk
      split at hk
      · assumption
      · cases hk
    rw [hroot m hc, hroot m' hc']
  root m hroot := by
    rw [oneFile_children] at hroot
    split at hroot
    · exact absurd (List.mem_singleton.mp hroot) (by decide)
    · cases hroot

/-- A component of 600 bytes, and no such file. -/
theorem long_path_missing : NeverAliased (fun _ => none) oneFile (slash :: List.replicate 600 98) 0 :=
  (long_path_iff (fun _ => none) oneFile (slash :: List.replicate 600 98) 0 oneFile_tree rfl).1.mpr
    ⟨.inr ((fsLookup_eq_none_iff rfl).mp (by decide +kernel)), .inr (.inr rfl)⟩

/-- The path is that of a file with the name `b` in `a`, and what fits into the buffer is that of
`a`. -/
theorem long_path_aliased : ¬ ∀ (heap : Allocator) (s : Fs) (path : List UInt8) (mode : ℕ),
    VfsTree s → path.head? = some slash → LongPath path →
      NeverAliased heap s path mode ∨ ReturnsNull heap s path mode := by
  intro h
  obtain ⟨path, hhead, hlong, hfound, htokens⟩ : ∃ path : List UInt8, path.head? = some slash ∧
      512 ≤ path.length ∧ fsLookup oneFile path = some 1 ∧
        tokens slash path = [bytesOf "a", bytesOf "b"] :=
    ⟨List.replicate 510 slash ++ bytesOf "a/b", by decide +kernel, by decide +kernel,
      by decide +kernel, by decide +kernel⟩
  rcases h (fun _ => none) oneFile path 0 oneFile_tree hhead (.inl hlong) with hok | hnull
  · have hpath := hok.lookup 1 hfound
    rw [htokens] at hpath
    have hone : HasPath oneFile [bytesOf "a"] 1 := ⟨1, List.mem_cons_self, rfl, rfl⟩
    exact absurd (hasPath_unique oneFile_tree hone hpath) (by decide)
  · rw [hnull.1] at hfound
    cases hfound

end PrismaticOS.Kernel
