import Mathlib.Data.List.Find
import PrismaticOS.Kernel.FsTree

/-!
# The names of files

`fs_create`, `fs_mkdir`, `syscall_open` with `O_CREAT`, `fs_unlink` and `fs_rmdir`, where
`kmalloc` never fails, as operations on a map from paths to nodes.

The map is broken in several ways. `fs_create` does not look whether the name is there
already, takes an empty name, cuts a long one to one that may be there, and makes nothing
in the root. `fs_unlink` and `fs_rmdir` remove nothing. An open that finds no free
descriptor has made or emptied the file before it fails.

## What is proved

* `lookup_created` — after a file was made in a directory that does not have its name, its
  path leads to it; `lookup_kept` — and all other paths lead where they led.
* `namespace_map` — in a run from `fs_init`, names of siblings always differ and every call
  keeps its promise (`Promise`) exactly if every call meets `NsOk`.
* `unlink_keeps` is a run of one call that breaks its promise.
-/

namespace PrismaticOS.Kernel

open PrismaticOS.Library

/-- A call on names. -/
inductive NsCall where
  /-- `fs_create(path, mode)`. -/
  | create (path : List UInt8) (mode : ℕ)
  /-- `fs_mkdir(path, mode)`. -/
  | mkdir (path : List UInt8) (mode : ℕ)
  /-- `syscall_open(path, flags | O_CREAT, mode)`. -/
  | open (path : List UInt8) (flags mode : ℕ)
  /-- `fs_unlink(path)`. -/
  | unlink (path : List UInt8)
  /-- `fs_rmdir(path)`. -/
  | rmdir (path : List UInt8)

/-- A `kmalloc` that never fails. -/
def totalHeap (g : ℕ → ℕ → UInt8) : Allocator := fun n => some (g n)

/-- A call: the state after it, and whether it failed. -/
def nsCall (heap : Allocator) (s : Fs) : NsCall → Fs × Bool
  | .create path mode =>
    ((fsCreate heap s path mode).1, (fsCreate heap s path mode).2 == none)
  | .mkdir path mode => ((fsMkdir heap s path mode).1, (fsMkdir heap s path mode).2 != 0)
  | .open path flags mode =>
    ((syscallOpen heap s path (flags ||| oCreat) mode).1,
      decide ((syscallOpen heap s path (flags ||| oCreat) mode).2 < 0))
  | .unlink path => (s, fsUnlink s path != 0)
  | .rmdir path => (s, fsRmdir s path != 0)

/-- A step of a run. -/
def nsStep (heap : Allocator) (s : Fs) (c : NsCall) : Option Fs := some (nsCall heap s c).1

/-! ### What the calls promise -/

/-- The names in a directory are pairwise distinct. -/
def SiblingsDistinct (s : Fs) : Prop :=
  ∀ m, ((s.nodes m).children.map fun c => (s.nodes c).name).Nodup

/-- Where the part of a path before its last slash leads: before the first slash is the
root. -/
def parentOf (s : Fs) (dir : List UInt8) : Option ℕ :=
  if dir = [] then some s.vfsRoot else fsLookup s dir

/-- A path that a file can be made at: shorter than 512 bytes, its parent is a directory,
and its last component is a name of at most 255 bytes that is not there. -/
def Creatable (s : Fs) (path : List UInt8) : Prop :=
  path.length < 512 ∧ ∃ dir name parent, path = dir ++ slash :: name ∧ slash ∉ name ∧ name ≠ [] ∧
    name.length ≤ 255 ∧ parentOf s dir = some parent ∧ (s.nodes parent).isDir = true ∧
      vfsFindChild s parent name = none

/-- What a call promises: if it fails nothing changes; `fs_create` makes a file where one
can be made, and its path leads to it then; after `fs_unlink` and `fs_rmdir` the path
leads nowhere. -/
def Promise (heap : Allocator) (s : Fs) (c : NsCall) (s' : Fs) : Prop :=
  ((nsCall heap s c).2 = true → s' = s) ∧
    match c with
    | .create path mode => Creatable s path →
      (fsCreate heap s path mode).2 = some s.nextNode ∧ fsLookup s' path = some s.nextNode
    | .mkdir _ _ => True
    | .open _ _ _ => True
    | .unlink path => fsUnlink s path = 0 → fsLookup s' path = none
    | .rmdir path => fsRmdir s path = 0 → fsLookup s' path = none

/-- The directory where `fs_create` would make a file does not have the name it would give
it. -/
def FreshTarget (s : Fs) (path : List UInt8) : Prop :=
  ∀ parent name, creationTarget s path = some (parent, name) →
    vfsFindChild s parent (name.take 255) = none

/-- When a call keeps names distinct and its promise. -/
def NsOk (s : Fs) : NsCall → Prop
  | .create path _ => FreshTarget s path ∧ (creationTarget s path = none → ¬ Creatable s path)
  | .mkdir path _ => FreshTarget s path
  | .open path flags _ =>
    match fsLookup s path with
    | none => FreshTarget s path ∧ (creationTarget s path ≠ none → freeSlot s ≠ none)
    | some node =>
      (s.nodes node).isDir = true ∨ (flags ||| oCreat) &&& oTrunc = 0 ∨
        (s.nodes node).privateData = none ∨ freeSlot s ≠ none
  | .unlink path => ∀ node, fsLookup s path = some node → (s.nodes node).isDir = true
  | .rmdir path => ∀ node, fsLookup s path = some node → (s.nodes node).isDir = true →
    (s.nodes node).children ≠ []

/-! ### A new name -/

variable {heap : Allocator} {s s' : Fs} {node parent mode : ℕ} {name path : List UInt8}

theorem vfsFindChild_none : vfsFindChild s parent name = none ↔
    ∀ c ∈ (s.nodes parent).children, (s.nodes c).name ≠ name := by
  simp [vfsFindChild]

/-- The names in the directories after a file was made. -/
theorem created_names (h : TreeOk s) {m : ℕ} (hm : m ≠ s.nextNode) :
    (((created s parent name mode).nodes m).children.map fun c =>
        ((created s parent name mode).nodes c).name) =
      if m = parent then name.take 255 :: (s.nodes m).children.map fun c => (s.nodes c).name
      else (s.nodes m).children.map fun c => (s.nodes c).name := by
  have hold : ((s.nodes m).children.map fun c => ((created s parent name mode).nodes c).name) =
      (s.nodes m).children.map fun c => (s.nodes c).name := by
    refine List.map_congr_left fun c hc => ?_
    rw [created_old (h.children m c hc).ne]
  rw [created_old hm]
  dsimp only
  split
  · rw [List.map_cons, (created_new s parent name mode).1, hold]
  · exact hold

/-- Names stay distinct exactly if the new one is not there. -/
theorem created_distinct (h : TreeOk s) (hd : SiblingsDistinct s) (hp : parent < s.nextNode) :
    SiblingsDistinct (created s parent name mode) ↔
      vfsFindChild s parent (name.take 255) = none := by
  constructor
  · intro hd'
    have hnames := hd' parent
    rw [created_names h hp.ne, if_pos rfl] at hnames
    rw [vfsFindChild_none]
    intro c hc heq
    exact (List.nodup_cons.mp hnames).1 (List.mem_map.mpr ⟨c, hc, heq⟩)
  · intro hfresh m
    by_cases hm : m = s.nextNode
    · rw [hm, created_new_children s hp]
      exact List.nodup_nil
    · rw [created_names h hm]
      split
      · rename_i hmp
        refine List.nodup_cons.mpr ⟨fun hmem => ?_, hd m⟩
        obtain ⟨c, hc, heq⟩ := List.mem_map.mp hmem
        rw [hmp] at hc
        exact vfsFindChild_none.mp hfresh c hc heq
      · exact hd m

/-- A child that is there is still found. -/
theorem vfsFindChild_created (h : TreeOk s) (hfresh : vfsFindChild s parent (name.take 255) = none)
    {m child : ℕ} {component : List UInt8} (hm : m < s.nextNode)
    (hfound : vfsFindChild s m component = some child) :
    vfsFindChild (created s parent name mode) m component = some child := by
  have hold : ((s.nodes m).children.find? fun c =>
      decide (((created s parent name mode).nodes c).name = component)) =
        vfsFindChild s m component := by
    refine List.find?_congr fun c hc => ?_
    rw [created_old (h.children m c hc).ne]
  unfold vfsFindChild
  rw [created_old hm.ne]
  dsimp only
  split
  · rename_i hmp
    rw [List.find?_cons_of_neg, hold, hfound]
    rw [decide_eq_true_eq, (created_new s parent name mode).1]
    rintro rfl
    rw [hmp, hfresh] at hfound
    cases hfound
  · rw [hold, hfound]

/-- **Where paths lead is kept** when a file with a new name is made. -/
theorem walkFrom_created (h : TreeOk s) (hfresh : vfsFindChild s parent (name.take 255) = none)
    {start : ℕ} {components : List (List UInt8)} (hstart : start < s.nextNode)
    (hwalk : walkFrom s start components = some node) :
    walkFrom (created s parent name mode) start components = some node := by
  induction components generalizing start with
  | nil => exact hwalk
  | cons component components ih =>
    rw [walkFrom_cons] at hwalk ⊢
    obtain ⟨child, hchild, hrest⟩ := Option.bind_eq_some_iff.mp hwalk
    rw [vfsFindChild_created h hfresh hstart hchild]
    exact ih (h.children start child (vfsFindChild_mem hchild).1) hrest

/-- A path that leads somewhere leads there still. -/
theorem lookup_kept (h : TreeOk s) (hfresh : vfsFindChild s parent (name.take 255) = none)
    (hfound : fsLookup s path = some node) :
    fsLookup (created s parent name mode) path = some node := by
  obtain ⟨habs, hwalk⟩ := fsLookup_some_iff.mp hfound
  exact fsLookup_some_iff.mpr ⟨habs, walkFrom_created h hfresh h.root hwalk⟩

/-- The parts of a path that is not cut. -/
theorem parts_of_path {dir : List UInt8} (hpath : path = dir ++ slash :: name)
    (hname : slash ∉ name) (hlen : path.length < 512) :
    path.take 511 = path ∧ beforeLast slash path = dir ∧ lastField slash path = name := by
  refine ⟨List.take_of_length_le (by omega), ?_, ?_⟩
  · rw [hpath]
    exact beforeLast_append hname
  · rw [hpath]
    exact lastField_append hname

/-- A path in a directory that was found is absolute. -/
theorem head_of_parent {dir : List UInt8} (hpath : path = dir ++ slash :: name)
    (hparent : fsLookup s dir = some parent) : path.head? = some slash := by
  rw [hpath, List.head?_append, (fsLookup_some_iff.mp hparent).1]
  rfl

/-- `fs_create` takes a path apart at its last slash, and makes nothing in the root. -/
theorem creationTarget_eq {dir : List UInt8} (hpath : path = dir ++ slash :: name)
    (hname : slash ∉ name) (hlen : path.length < 512) (hparent : parentOf s dir = some parent)
    (hdir : (s.nodes parent).isDir = true) :
    creationTarget s path = if dir = [] then none else some (parent, name) := by
  obtain ⟨htake, hbefore, hlast⟩ := parts_of_path hpath hname hlen
  unfold creationTarget
  simp only [htake, hbefore, hlast]
  by_cases hroot : dir = []
  · simp [hroot]
  rw [if_neg hroot, if_neg hroot]
  unfold parentOf at hparent
  rw [if_neg hroot] at hparent
  have habs := head_of_parent hpath hparent
  rw [if_pos habs, hparent]
  simp [hdir]

/-- **The path of a new file leads to it.** -/
theorem lookup_created {dir : List UInt8} (h : TreeOk s) (hpath : path = dir ++ slash :: name)
    (hname : slash ∉ name) (hne : name ≠ []) (hlen : path.length < 512) (hshort : name.length ≤ 255)
    (hparent : fsLookup s dir = some parent) (hfresh : vfsFindChild s parent name = none) :
    fsLookup (created s parent name mode) path = some s.nextNode := by
  obtain ⟨htake, -, -⟩ := parts_of_path hpath hname hlen
  have habs := head_of_parent hpath hparent
  have hcut : name.take 255 = name := List.take_of_length_le hshort
  have hlt : parent < s.nextNode := fsLookup_lt h hparent
  have hdir : walkFrom s s.vfsRoot (tokens slash dir) = some parent := by
    have hwalk := (fsLookup_some_iff.mp hparent).2
    rw [hpath, List.length_append] at hlen
    rwa [List.take_of_length_le (by omega)] at hwalk
  rw [fsLookup_of_head habs, htake, hpath, tokens_append, tokens_of_not_mem hname hne]
  refine (walkFrom_append _ _ _ _).trans ?_
  rw [show (created s parent name mode).vfsRoot = s.vfsRoot from rfl,
    walkFrom_created h (by rw [hcut]; exact hfresh) h.root hdir, Option.bind_some, walkFrom_cons]
  have hfound : vfsFindChild (created s parent name mode) parent name = some s.nextNode := by
    unfold vfsFindChild
    rw [created_old hlt.ne]
    dsimp only
    rw [if_pos rfl, List.find?_cons_of_pos]
    rw [decide_eq_true_eq, (created_new s parent name mode).1, hcut]
  rw [hfound]
  rfl

/-! ### The calls -/

/-- What holds between the calls. -/
structure NsInv (s : Fs) : Prop where
  /-- The tree. -/
  tree : TreeOk s
  /-- The names. -/
  distinct : SiblingsDistinct s

theorem SiblingsDistinct.congr (h : SiblingsDistinct s)
    (hsame : ∀ m, (s'.nodes m).children = (s.nodes m).children ∧
      (s'.nodes m).name = (s.nodes m).name) : SiblingsDistinct s' := by
  intro m
  simp only [hsame]
  exact h m

theorem NsInv.created (h : NsInv s) (hp : parent < s.nextNode)
    (hfresh : vfsFindChild s parent (name.take 255) = none) :
    NsInv (created s parent name mode) :=
  ⟨created_treeOk h.tree, (created_distinct h.tree h.distinct hp).mpr hfresh⟩

theorem NsInv.openNode (h : NsInv s) : NsInv (openNode heap s node).1 :=
  ⟨openNode_treeOk h.tree, h.distinct.congr fun m => by simp [openNode_nodes]⟩

variable {g : ℕ → ℕ → UInt8}

/-- `fs_create` when there is memory. -/
theorem fsCreate_total (g : ℕ → ℕ → UInt8) (s : Fs) (path : List UInt8) (mode : ℕ) :
    fsCreate (totalHeap g) s path mode =
      match creationTarget s path with
      | none => (s, none)
      | some (parent, name) => (Kernel.created s parent name mode, some s.nextNode) := by
  rcases fsCreate_cases (totalHeap g) s path mode with
    ⟨htarget, h⟩ | ⟨target, -, hheap, -⟩ | ⟨parent, name, memory, htarget, -, h⟩
  · rw [h, htarget]
  · cases hheap
  · rw [h, htarget]

/-- A descriptor is opened when there is memory and a free one. -/
theorem openNode_total (g : ℕ → ℕ → UInt8) (s : Fs) (node : ℕ) :
    (freeSlot s = none ∧ Kernel.openNode (totalHeap g) s node = (s, -1)) ∨
      (freeSlot s ≠ none ∧ 0 ≤ (Kernel.openNode (totalHeap g) s node).2) := by
  rcases openNode_cases (totalHeap g) s node with h | ⟨hheap, -, -⟩ | ⟨i, hslot, hfd, -⟩
  · exact .inl h
  · rcases hheap with hheap | hheap <;> cases hheap
  · refine .inr ⟨by rw [hslot]; nofun, ?_⟩
    rw [hfd]
    exact Int.natCast_nonneg i

/-- Making a file with a new name, for `fs_create` and `fs_mkdir`. -/
theorem fsCreate_inv (g : ℕ → ℕ → UInt8) (mode : ℕ) (h : NsInv s) (hfresh : FreshTarget s path) :
    NsInv (fsCreate (totalHeap g) s path mode).1 ∧
      ((fsCreate (totalHeap g) s path mode).2 = none →
        (fsCreate (totalHeap g) s path mode).1 = s) := by
  rw [fsCreate_total]
  cases htarget : creationTarget s path with
  | none => exact ⟨h, fun _ => rfl⟩
  | some target =>
    obtain ⟨parent, name⟩ := target
    exact ⟨h.created (creationTarget_lt h.tree htarget) (hfresh parent name htarget), nofun⟩

/-- Making a file with a name that is there. -/
theorem fsCreate_clash (h : NsInv s) (hclash : ¬ FreshTarget s path) :
    ¬ SiblingsDistinct (fsCreate (totalHeap g) s path mode).1 := by
  unfold FreshTarget at hclash
  push Not at hclash
  obtain ⟨parent, name, htarget, hfound⟩ := hclash
  rw [fsCreate_total, htarget]
  intro hd
  exact hfound ((created_distinct h.tree h.distinct (creationTarget_lt h.tree htarget)).mp hd)

theorem nsCreate_keeps (h : NsInv s) (hok : NsOk s (.create path mode)) :
    NsInv (nsCall (totalHeap g) s (.create path mode)).1 ∧
      Promise (totalHeap g) s (.create path mode)
        (nsCall (totalHeap g) s (.create path mode)).1 := by
  obtain ⟨hfresh, hroot⟩ := hok
  obtain ⟨hinv, hfail⟩ := fsCreate_inv g mode h hfresh
  refine ⟨hinv, fun hfailed => hfail ?_, fun hcreatable => ?_⟩
  · simpa [nsCall] using hfailed
  obtain ⟨hlen, dir, name, parent, hpath, hname, hne, hshort, hparent, hdir, hnew⟩ := hcreatable
  have htarget := creationTarget_eq hpath hname hlen hparent hdir
  by_cases hempty : dir = []
  · rw [if_pos hempty] at htarget
    exact absurd ⟨hlen, dir, name, parent, hpath, hname, hne, hshort, hparent, hdir, hnew⟩
      (hroot htarget)
  rw [if_neg hempty] at htarget
  unfold parentOf at hparent
  rw [if_neg hempty] at hparent
  show _ ∧ fsLookup (fsCreate (totalHeap g) s path mode).1 path = _
  rw [fsCreate_total, htarget]
  exact ⟨rfl, lookup_created h.tree hpath hname hne hlen hshort hparent hnew⟩

theorem nsCreate_breaks (h : NsInv s) (hno : ¬ NsOk s (.create path mode))
    (hd : SiblingsDistinct (nsCall (totalHeap g) s (.create path mode)).1) :
    ¬ Promise (totalHeap g) s (.create path mode)
        (nsCall (totalHeap g) s (.create path mode)).1 := by
  intro hpromise
  by_cases hfresh : FreshTarget s path
  swap
  · exact fsCreate_clash h hfresh hd
  have hroot : ¬ (creationTarget s path = none → ¬ Creatable s path) := fun hc => hno ⟨hfresh, hc⟩
  push Not at hroot
  obtain ⟨htarget, hcreatable⟩ := hroot
  have hmade := (hpromise.2 hcreatable).1
  rw [fsCreate_total, htarget] at hmade
  cases hmade

/-- `fs_mkdir` in terms of `fs_create`. -/
theorem fsMkdir_eq (heap : Allocator) (s : Fs) (path : List UInt8) (mode : ℕ) :
    fsMkdir heap s path mode =
      ((fsCreate heap s path (sIfdir ||| (mode &&& 0o777))).1,
        if (fsCreate heap s path (sIfdir ||| (mode &&& 0o777))).2 = none then -1 else 0) := by
  unfold fsMkdir
  rcases fsCreate heap s path (sIfdir ||| (mode &&& 0o777)) with ⟨t, _ | n⟩
  · rfl
  · rfl

/-- The state after `fs_mkdir`. -/
theorem nsMkdir_state (heap : Allocator) (s : Fs) (path : List UInt8) (mode : ℕ) :
    (nsCall heap s (.mkdir path mode)).1 =
      (fsCreate heap s path (sIfdir ||| (mode &&& 0o777))).1 :=
  congrArg Prod.fst (fsMkdir_eq heap s path mode)

theorem nsMkdir_keeps (h : NsInv s) (hok : NsOk s (.mkdir path mode)) :
    NsInv (nsCall (totalHeap g) s (.mkdir path mode)).1 ∧
      Promise (totalHeap g) s (.mkdir path mode)
        (nsCall (totalHeap g) s (.mkdir path mode)).1 := by
  obtain ⟨hinv, hfail⟩ := fsCreate_inv g (sIfdir ||| (mode &&& 0o777)) h hok
  rw [nsMkdir_state]
  refine ⟨hinv, fun hfailed => hfail ?_, trivial⟩
  simpa [nsCall, fsMkdir_eq] using hfailed

theorem nsMkdir_breaks (h : NsInv s) (hno : ¬ NsOk s (.mkdir path mode)) :
    ¬ SiblingsDistinct (nsCall (totalHeap g) s (.mkdir path mode)).1 := by
  rw [nsMkdir_state]
  exact fsCreate_clash h hno

/-! ### Opening with `O_CREAT` -/

/-- `O_CREAT` is given. -/
theorem oCreat_given (flags : ℕ) : (flags ||| oCreat) &&& oCreat ≠ 0 := by
  rw [Nat.and_or_distrib_right, Nat.and_self]
  intro h
  exact absurd (Nat.or_eq_zero_iff.mp h).2 (by decide)

theorem truncate_inv {flags : ℕ} (h : NsInv s) : NsInv (truncate s node flags) := by
  obtain ⟨-, -, hsame⟩ := truncate_frame s node flags
  exact ⟨truncate_treeOk h.tree, h.distinct.congr fun m => ⟨(hsame m).1, (hsame m).2.1⟩⟩

/-- An open that fails with a descriptor free has changed nothing. -/
theorem openNode_failed (h : (Kernel.openNode (totalHeap g) s node).2 < 0) :
    freeSlot s = none ∧ (Kernel.openNode (totalHeap g) s node).1 = s := by
  rcases openNode_total g s node with ⟨hslot, ho⟩ | ⟨-, ho⟩
  · exact ⟨hslot, by rw [ho]⟩
  · omega

/-- Without a free descriptor it fails. -/
theorem openNode_full (h : freeSlot s = none) :
    Kernel.openNode (totalHeap g) s node = (s, -1) := by
  rcases openNode_total g s node with ⟨-, ho⟩ | ⟨hslot, -⟩
  · exact ho
  · exact absurd h hslot

theorem truncate_slot (s : Fs) (node flags : ℕ) : freeSlot (truncate s node flags) = freeSlot s := by
  unfold truncate
  split <;> rfl

theorem nsOpen_keeps {flags : ℕ} (h : NsInv s) (hok : NsOk s (.open path flags mode)) :
    NsInv (nsCall (totalHeap g) s (.open path flags mode)).1 ∧
      Promise (totalHeap g) s (.open path flags mode)
        (nsCall (totalHeap g) s (.open path flags mode)).1 := by
  unfold Promise nsCall
  simp only [decide_eq_true_eq, and_true]
  rcases syscallOpen_cases (totalHeap g) s path (flags ||| oCreat) mode with
    ⟨-, ho⟩ | ⟨-, -, -, hheap, -⟩ | ⟨parent, name, memory, hfound, -, htarget, -, ho⟩ |
      ⟨node, hfound, hdir, ho⟩
  · rw [ho]
    exact ⟨h, fun _ => rfl⟩
  · cases hheap
  · simp only [NsOk, hfound] at hok
    obtain ⟨hfresh, hslot⟩ := hok
    rw [ho]
    refine ⟨(h.created (creationTarget_lt h.tree htarget) (hfresh parent name htarget)).openNode,
      fun hfailed => ?_⟩
    refine absurd (openNode_failed hfailed).1 ?_
    exact hslot (by rw [htarget]; nofun)
  · simp only [NsOk, hfound] at hok
    rw [ho]
    refine ⟨(truncate_inv h).openNode, fun hfailed => ?_⟩
    obtain ⟨hslot, hsame⟩ := openNode_failed hfailed
    rw [hsame]
    rw [truncate_slot] at hslot
    rcases hok with hdir' | htrunc | hdata | hfree
    · exact absurd (hdir.symm.trans hdir') (by decide)
    · unfold truncate
      exact if_neg fun hc => hc.1 htrunc
    · exact truncate_none hdata
    · exact absurd hslot hfree

theorem nsOpen_breaks {flags : ℕ} (h : NsInv s) (hno : ¬ NsOk s (.open path flags mode))
    (hd : SiblingsDistinct (nsCall (totalHeap g) s (.open path flags mode)).1) :
    ¬ Promise (totalHeap g) s (.open path flags mode)
        (nsCall (totalHeap g) s (.open path flags mode)).1 := by
  unfold Promise
  intro hpromise
  obtain ⟨hpromise, -⟩ := hpromise
  simp only [nsCall, decide_eq_true_eq] at hpromise hd
  rcases syscallOpen_cases (totalHeap g) s path (flags ||| oCreat) mode with
    ⟨hnone, -⟩ | ⟨-, -, -, hheap, -⟩ | ⟨parent, name, memory, hfound, -, htarget, -, ho⟩ |
      ⟨node, hfound, hdir, ho⟩
  · -- nothing happens, and that is allowed
    rcases hnone with ⟨hfound, hflags | htarget⟩ | ⟨node, hfound, hdir⟩
    · exact oCreat_given flags hflags
    · simp only [NsOk, hfound] at hno
      exact hno ⟨fun parent name hc => absurd (htarget.symm.trans hc) nofun,
        fun hc => absurd htarget hc⟩
    · simp only [NsOk, hfound] at hno
      exact hno (.inl hdir)
  · cases hheap
  · simp only [NsOk, hfound] at hno
    rw [ho] at hpromise hd
    by_cases hfresh : FreshTarget s path
    · -- there is no descriptor, and the file was made
      have hslot : freeSlot s = none := by
        by_contra hslot
        exact hno ⟨hfresh, fun _ => hslot⟩
      have hfull : Kernel.openNode (totalHeap g)
          (Kernel.created s parent name (sIfreg ||| (mode &&& 0o777))) s.nextNode =
            (Kernel.created s parent name (sIfreg ||| (mode &&& 0o777)), -1) := openNode_full hslot
      rw [hfull] at hpromise
      have hsame := congrArg Fs.nextNode (hpromise (show (-1 : ℤ) < 0 by decide))
      exact Nat.succ_ne_self s.nextNode hsame
    · refine hfresh fun parent' name' hc => ?_
      obtain ⟨rfl, rfl⟩ := Prod.mk.inj (Option.some.inj (htarget.symm.trans hc))
      have hmade : SiblingsDistinct
          (Kernel.created s parent name (sIfreg ||| (mode &&& 0o777))) :=
        hd.congr fun m => by simp [openNode_nodes]
      exact (created_distinct h.tree h.distinct (creationTarget_lt h.tree htarget)).mp hmade
  · -- there is no descriptor, and the file was emptied
    simp only [NsOk, hfound] at hno
    obtain ⟨-, hno⟩ := not_or.mp hno
    obtain ⟨htrunc, hno⟩ := not_or.mp hno
    obtain ⟨hdata, hslot⟩ := not_or.mp hno
    rw [not_not] at hslot
    have hfull : Kernel.openNode (totalHeap g) (truncate s node (flags ||| oCreat)) node =
        (truncate s node (flags ||| oCreat), -1) :=
      openNode_full (by rw [truncate_slot]; exact hslot)
    rw [ho, hfull] at hpromise
    have hsame : truncate s node (flags ||| oCreat) = s :=
      hpromise (show (-1 : ℤ) < 0 by decide)
    have hempty : ((truncate s node (flags ||| oCreat)).nodes node).privateData = none := by
      unfold truncate
      rw [if_pos ⟨htrunc, Option.isSome_iff_ne_none.mpr hdata⟩, Fs.setNode_self]
    rw [hsame] at hempty
    exact hdata hempty

/-! ### Removing -/

/-- `fs_unlink` finds a file, or fails. -/
theorem fsUnlink_eq_zero (s : Fs) (path : List UInt8) :
    fsUnlink s path = 0 ↔ ∃ node, fsLookup s path = some node ∧ (s.nodes node).isDir = false := by
  unfold fsUnlink
  cases fsLookup s path with
  | none => simp
  | some node => cases hdir : (s.nodes node).isDir <;> simp [hdir]

/-- `fs_rmdir` finds a directory that is empty, or fails. -/
theorem fsRmdir_eq_zero (s : Fs) (path : List UInt8) :
    fsRmdir s path = 0 ↔ ∃ node, fsLookup s path = some node ∧ (s.nodes node).isDir = true ∧
      (s.nodes node).children = [] := by
  unfold fsRmdir
  cases fsLookup s path with
  | none => simp
  | some node =>
    cases hdir : (s.nodes node).isDir with
    | false => simp [hdir]
    | true => by_cases hchildren : (s.nodes node).children = [] <;> simp [hdir, hchildren]

theorem nsUnlink_promise :
    Promise heap s (.unlink path) s ↔ NsOk s (.unlink path) := by
  constructor
  · intro hpromise node hfound
    by_contra hdir
    rw [Bool.not_eq_true] at hdir
    have hgone := hpromise.2 ((fsUnlink_eq_zero s path).mpr ⟨node, hfound, hdir⟩)
    rw [hfound] at hgone
    cases hgone
  · intro hok
    refine ⟨fun _ => rfl, fun hzero => ?_⟩
    obtain ⟨node, hfound, hdir⟩ := (fsUnlink_eq_zero s path).mp hzero
    exact absurd (hdir.symm.trans (hok node hfound)) (by decide)

theorem nsRmdir_promise :
    Promise heap s (.rmdir path) s ↔ NsOk s (.rmdir path) := by
  constructor
  · intro hpromise node hfound hdir hempty
    have hgone := hpromise.2 ((fsRmdir_eq_zero s path).mpr ⟨node, hfound, hdir, hempty⟩)
    rw [hfound] at hgone
    cases hgone
  · intro hok
    refine ⟨fun _ => rfl, fun hzero => ?_⟩
    obtain ⟨node, hfound, hdir, hempty⟩ := (fsRmdir_eq_zero s path).mp hzero
    exact absurd hempty (hok node hfound hdir)

/-! ### Runs -/

theorem nsStep_keeps {c : NsCall} (h : NsInv s) (hok : NsOk s c)
    (hs : nsStep (totalHeap g) s c = some s') :
    NsInv s' ∧ Promise (totalHeap g) s c s' := by
  obtain rfl := Option.some.inj hs
  cases c with
  | create path mode => exact nsCreate_keeps h hok
  | mkdir path mode => exact nsMkdir_keeps h hok
  | «open» path flags mode => exact nsOpen_keeps h hok
  | unlink path => exact ⟨h, nsUnlink_promise.mpr hok⟩
  | rmdir path => exact ⟨h, nsRmdir_promise.mpr hok⟩

theorem nsStep_breaks {c : NsCall} (h : NsInv s) (hno : ¬ NsOk s c)
    (hs : nsStep (totalHeap g) s c = some s') (hd : SiblingsDistinct s') :
    ¬ Promise (totalHeap g) s c s' := by
  obtain rfl := Option.some.inj hs
  cases c with
  | create path mode => exact nsCreate_breaks h hno hd
  | mkdir path mode => exact absurd hd (nsMkdir_breaks h hno)
  | «open» path flags mode => exact nsOpen_breaks h hno hd
  | unlink path => exact fun hpromise => hno (nsUnlink_promise.mp hpromise)
  | rmdir path => exact fun hpromise => hno (nsRmdir_promise.mp hpromise)

/-- The names in the tree that `fs_init` builds are distinct. -/
theorem fsInit_distinct (h : fsInit (totalHeap g) = some s) : SiblingsDistinct s := by
  suffices ∀ t, fsInit (totalHeap g) = some t → ∀ m,
      ((t.nodes m).children.map fun c => (t.nodes c).name) ∈
        [[bytesOf "memfs"], [bytesOf "test", bytesOf "hello.txt"], [], [bytesOf "nested.txt"]] by
    intro m
    have hnodup : ∀ names ∈ [[bytesOf "memfs"], [bytesOf "test", bytesOf "hello.txt"], [],
        [bytesOf "nested.txt"]], names.Nodup := by decide
    exact hnodup _ (this s h m)
  rintro t ⟨⟩ m
  match m with
  | 0 => exact .head _
  | 1 => exact .tail _ (.head _)
  | 2 => exact .tail _ (.tail _ (.head _))
  | 3 => exact .tail _ (.tail _ (.tail _ (.head _)))
  | 4 => exact .tail _ (.tail _ (.head _))
  | k + 5 => exact .tail _ (.tail _ (.head _))

/-- **When the names are a map**: from `fs_init`, with a `kmalloc` that never fails, the
names of siblings are distinct in every state of a run and every call keeps its promise
exactly if every call meets the condition. -/
theorem namespace_map (g : ℕ → ℕ → UInt8) (s : Fs) (h : fsInit (totalHeap g) = some s)
    (calls : List NsCall) :
    Always (nsStep (totalHeap g)) SiblingsDistinct s calls ∧
        Along (nsStep (totalHeap g)) (Promise (totalHeap g)) s calls ↔
      Each (nsStep (totalHeap g)) NsOk s calls := by
  have hinit : NsInv s := ⟨fsInit_treeOk h, fsInit_distinct h⟩
  apply along_iff_each (fun s (h : NsInv s) => h.distinct) _ _ hinit
  · exact fun s c s' h hok hs => nsStep_keeps h hok hs
  · exact fun s c s' h hno hs hd => nsStep_breaks h hno hs hd

/-- A directory is made in `/memfs`, and a file in it. -/
theorem namespace_map_made :
    fsInit (totalHeap fun _ _ => 0) = some startedFs ∧
      (Always (nsStep (totalHeap fun _ _ => 0)) SiblingsDistinct startedFs
            [.mkdir (bytesOf "/memfs/dir") 0o755, .create (bytesOf "/memfs/dir/file") sIfreg] ∧
          Along (nsStep (totalHeap fun _ _ => 0)) (Promise (totalHeap fun _ _ => 0)) startedFs
            [.mkdir (bytesOf "/memfs/dir") 0o755, .create (bytesOf "/memfs/dir/file") sIfreg] ↔
        Each (nsStep (totalHeap fun _ _ => 0)) NsOk startedFs
          [.mkdir (bytesOf "/memfs/dir") 0o755, .create (bytesOf "/memfs/dir/file") sIfreg]) :=
  ⟨startedFs_eq, namespace_map (fun _ _ => 0) startedFs startedFs_eq _⟩

/-- `fs_unlink` of `hello.txt` returns 0, and the path leads to the file still. -/
theorem unlink_keeps :
    fsInit (totalHeap fun _ _ => 0) = some startedFs ∧
      ¬ (Always (nsStep (totalHeap fun _ _ => 0)) SiblingsDistinct startedFs
            [.unlink (bytesOf "/memfs/hello.txt")] ∧
          Along (nsStep (totalHeap fun _ _ => 0)) (Promise (totalHeap fun _ _ => 0)) startedFs
            [.unlink (bytesOf "/memfs/hello.txt")]) := by
  refine ⟨startedFs_eq, ?_⟩
  rintro ⟨-, h⟩
  have hgone := (h startedFs rfl).1.2 (by decide +kernel)
  have hstill : fsLookup startedFs (bytesOf "/memfs/hello.txt") = some 2 := by decide +kernel
  rw [hstill] at hgone
  cases hgone

end PrismaticOS.Kernel
