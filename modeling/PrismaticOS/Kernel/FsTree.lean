import PrismaticOS.Kernel.FsFiles

/-!
# The tree of nodes

The root and the children of every node are nodes that were made, so a path leads to
such a node if it leads anywhere. No call changes the children of a node but one that
makes a node.

## What is proved

* `fsLookup_lt`, `creationTarget_lt` — what a path leads to was made.
* `fsInit_treeOk`, `fileStep_treeOk` — `fs_init` makes such a tree, and the calls keep it;
  `tree_always` says so of runs.
-/

namespace PrismaticOS.Kernel

open PrismaticOS.Library

variable {heap : Allocator} {s s' : Fs} {node obj : ℕ} {path : List UInt8}

/-- The root and the children of the nodes were made. -/
structure TreeOk (s : Fs) : Prop where
  /-- The root. -/
  root : s.vfsRoot < s.nextNode
  /-- The children. -/
  children : ∀ m, ∀ c ∈ (s.nodes m).children, c < s.nextNode

theorem TreeOk.congr (h : TreeOk s) (hroot : s'.vfsRoot = s.vfsRoot)
    (hnext : s'.nextNode = s.nextNode)
    (hchildren : ∀ m, (s'.nodes m).children = (s.nodes m).children) : TreeOk s' := by
  refine ⟨by rw [hroot, hnext]; exact h.root, fun m c hc => ?_⟩
  rw [hchildren] at hc
  rw [hnext]
  exact h.children m c hc

/-! ### Where paths lead -/

/-- A component leads to a child. -/
theorem vfsFindChild_mem {parent : ℕ} {name : List UInt8}
    (h : vfsFindChild s parent name = some node) :
    node ∈ (s.nodes parent).children ∧ (s.nodes node).name = name := by
  unfold vfsFindChild at h
  have hname := List.find?_some h
  exact ⟨List.mem_of_find?_eq_some h, of_decide_eq_true hname⟩

/-- The rest of a path after its first component. -/
def walkFrom (s : Fs) (start : ℕ) (names : List (List UInt8)) : Option ℕ :=
  names.foldl (fun current name => current.bind fun n => vfsFindChild s n name) (some start)

theorem walkFrom_none (s : Fs) (names : List (List UInt8)) :
    names.foldl (fun current name => current.bind fun n => vfsFindChild s n name) none = none := by
  induction names with
  | nil => rfl
  | cons name names ih => exact ih

/-- A walk goes through the child that its first component names. -/
theorem walkFrom_cons (s : Fs) (start : ℕ) (name : List UInt8) (names : List (List UInt8)) :
    walkFrom s start (name :: names) =
      (vfsFindChild s start name).bind fun child => walkFrom s child names := by
  unfold walkFrom
  rw [List.foldl_cons, Option.bind_some]
  cases vfsFindChild s start name with
  | none => exact walkFrom_none s names
  | some child => rfl

theorem walkFrom_append (s : Fs) (start : ℕ) (names more : List (List UInt8)) :
    walkFrom s start (names ++ more) =
      (walkFrom s start names).bind fun n => walkFrom s n more := by
  induction names generalizing start with
  | nil => rfl
  | cons name names ih =>
    rw [List.cons_append, walkFrom_cons, walkFrom_cons, Option.bind_assoc]
    congr 1
    funext child
    exact ih child

theorem walkFrom_lt (h : TreeOk s) {start : ℕ} (hstart : start < s.nextNode)
    {names : List (List UInt8)} (hwalk : walkFrom s start names = some node) : node < s.nextNode := by
  induction names generalizing start with
  | nil => exact Option.some.inj hwalk ▸ hstart
  | cons name names ih =>
    rw [walkFrom_cons] at hwalk
    obtain ⟨child, hchild, hrest⟩ := Option.bind_eq_some_iff.mp hwalk
    exact ih (h.children start child (vfsFindChild_mem hchild).1) hrest

/-- An absolute path leads along its components, those that were not cut off. -/
theorem fsLookup_of_head (h : path.head? = some slash) :
    fsLookup s path = walkFrom s s.vfsRoot (tokens slash (path.take 511)) := if_pos h

/-- A path that leads somewhere is absolute, and its components lead there. -/
theorem fsLookup_some_iff : fsLookup s path = some node ↔ path.head? = some slash ∧
    walkFrom s s.vfsRoot (tokens slash (path.take 511)) = some node := by
  by_cases h : path.head? = some slash
  · rw [fsLookup_of_head h, and_iff_right h]
  · rw [fsLookup, if_neg h]
    exact iff_of_false nofun fun hc => h hc.1

theorem fsLookup_lt (h : TreeOk s) (hfound : fsLookup s path = some node) : node < s.nextNode :=
  walkFrom_lt h h.root (fsLookup_some_iff.mp hfound).2

/-- The directory of a file to be made is there, and is a directory. -/
theorem creationTarget_spec {parent : ℕ} {name : List UInt8}
    (h : creationTarget s path = some (parent, name)) :
    fsLookup s (beforeLast slash (path.take 511)) = some parent ∧
      (s.nodes parent).isDir = true ∧ name = lastField slash (path.take 511) := by
  unfold creationTarget at h
  split at h
  swap
  · cases h
  dsimp only at h
  split at h
  · cases h
  obtain ⟨parent', hparent, h⟩ := Option.bind_eq_some_iff.mp h
  split at h
  swap
  · cases h
  rename_i hdir
  obtain ⟨rfl, rfl⟩ := Prod.mk.inj (Option.some.inj h)
  exact ⟨hparent, hdir, rfl⟩

theorem creationTarget_lt (h : TreeOk s) {parent : ℕ} {name : List UInt8}
    (htarget : creationTarget s path = some (parent, name)) : parent < s.nextNode :=
  fsLookup_lt h (creationTarget_spec htarget).1

/-! ### A node is made -/

/-- The children of a node that was made. -/
theorem created_new_children (s : Fs) {parent mode : ℕ} {name : List UInt8}
    (h : parent < s.nextNode) :
    ((created s parent name mode).nodes s.nextNode).children = [] := by
  unfold created made vfsAddChild
  rw [Fs.setNode_of_ne _ _ h.ne']
  simp only [Function.update_self]

/-- Making a node in a directory. -/
theorem treeOk_made (parent : ℕ) (h : TreeOk s) (hroot : s'.vfsRoot = s.vfsRoot)
    (hnext : s'.nextNode = s.nextNode + 1)
    (hold : ∀ m, m ≠ s.nextNode → (s'.nodes m).children =
      if m = parent then s.nextNode :: (s.nodes m).children else (s.nodes m).children)
    (hnew : ∀ c ∈ (s'.nodes s.nextNode).children, c = s.nextNode) : TreeOk s' := by
  refine ⟨by rw [hroot, hnext]; exact Nat.lt_succ_of_lt h.root, fun m c hc => ?_⟩
  rw [hnext]
  by_cases hm : m = s.nextNode
  · rw [hm] at hc
    rw [hnew c hc]
    exact Nat.lt_succ_self _
  · rw [hold m hm] at hc
    split at hc
    · rcases List.mem_cons.mp hc with rfl | hc
      · exact Nat.lt_succ_self _
      · exact Nat.lt_succ_of_lt (h.children m c hc)
    · exact Nat.lt_succ_of_lt (h.children m c hc)

theorem created_treeOk {parent mode : ℕ} {name : List UInt8} (h : TreeOk s) :
    TreeOk (created s parent name mode) := by
  refine treeOk_made parent h rfl rfl (fun m hm => by rw [created_old hm]) fun c hc => ?_
  unfold created made vfsAddChild at hc
  by_cases hp : s.nextNode = parent
  · rw [← hp, Fs.setNode_self] at hc
    simp only [Function.update_self, List.mem_singleton] at hc
    exact hc
  · rw [Fs.setNode_of_ne _ _ hp] at hc
    simp only [Function.update_self, List.not_mem_nil] at hc

theorem createdFile_treeOk {parent mode size : ℕ} {name : List UInt8} {data : Buffer}
    (h : TreeOk s) : TreeOk (createdFile s parent name mode data size) := by
  have hchildren : ∀ m, ((createdFile s parent name mode data size).nodes m).children =
      ((created s parent name mode).nodes m).children := by
    intro m
    unfold createdFile created vfsAddChild
    by_cases hp : m = parent
    · rw [hp, Fs.setNode_self, Fs.setNode_self]
      by_cases hnew : parent = s.nextNode
      · rw [hnew, Fs.setNode_self]
        rfl
      · rw [Fs.setNode_of_ne _ _ hnew]
        rfl
    · rw [Fs.setNode_of_ne _ _ hp, Fs.setNode_of_ne _ _ hp]
      by_cases hnew : m = s.nextNode
      · rw [hnew, Fs.setNode_self]
        rfl
      · rw [Fs.setNode_of_ne _ _ hnew]
        rfl
  exact (created_treeOk h : TreeOk (created s parent name mode)).congr rfl rfl
    hchildren

/-! ### Runs -/

theorem rootOnly_children (m : ℕ) :
    (({ made fsEmpty (bytesOf "/") (sIfdir ||| 0o755) with vfsRoot := 0 } : Fs).nodes m).children =
      [] := by
  by_cases hm : m = 0
  · rw [hm]
    rfl
  · show (Function.update fsEmpty.nodes 0 _ m).children = []
    rw [Function.update_of_ne hm]
    rfl

theorem fsInit_treeOk (h : fsInit heap = some s) : TreeOk s := by
  refine fsInit_rule TreeOk ⟨Nat.one_pos, fun m c hc => ?_⟩
    (fun _ h => h.congr rfl rfl fun _ => rfl) (fun _ _ _ _ h => created_treeOk h)
    (fun _ _ _ _ _ _ h _ => createdFile_treeOk h) h
  -- the root has no children yet, and there is nothing else
  rw [rootOnly_children m] at hc
  exact absurd hc List.not_mem_nil

/-- `fs_init` opens no descriptor. -/
theorem fsInit_fdTable (h : fsInit heap = some s) (i : ℕ) : s.fdTable i = none :=
  fsInit_rule (fun s => s.fdTable i = none) rfl (fun _ h => h) (fun _ _ _ _ h => h)
    (fun _ _ _ _ _ _ h _ => h) h

/-- What opening a node keeps of the tree. -/
theorem openNode_frame (heap : Allocator) (s : Fs) (node : ℕ) :
    (openNode heap s node).1.vfsRoot = s.vfsRoot ∧
      (openNode heap s node).1.nextNode = s.nextNode := by
  rcases openNode_cases heap s node with ⟨-, h⟩ | ⟨-, -, h⟩ | ⟨i, -, -, h⟩
  · rw [h]
    exact ⟨rfl, rfl⟩
  · exact ⟨h.vfsRoot, h.nextNode⟩
  · exact ⟨h.vfsRoot, h.nextNode⟩

theorem openNode_treeOk (h : TreeOk s) : TreeOk (openNode heap s node).1 :=
  h.congr (openNode_frame heap s node).1 (openNode_frame heap s node).2
    fun m => by rw [openNode_nodes]

/-- What emptying a file keeps of the tree. -/
theorem truncate_frame (s : Fs) (node flags : ℕ) :
    (truncate s node flags).vfsRoot = s.vfsRoot ∧
      (truncate s node flags).nextNode = s.nextNode ∧
        ∀ m, ((truncate s node flags).nodes m).children = (s.nodes m).children ∧
          ((truncate s node flags).nodes m).name = (s.nodes m).name ∧
            ((truncate s node flags).nodes m).mode = (s.nodes m).mode := by
  unfold truncate
  split
  · refine ⟨rfl, rfl, fun m => ?_⟩
    by_cases hm : m = node
    · rw [hm, Fs.setNode_self]
      exact ⟨rfl, rfl, rfl⟩
    · rw [Fs.setNode_of_ne _ _ hm]
      exact ⟨rfl, rfl, rfl⟩
  · exact ⟨rfl, rfl, fun _ => ⟨rfl, rfl, rfl⟩⟩

theorem truncate_treeOk {flags : ℕ} (h : TreeOk s) : TreeOk (truncate s node flags) := by
  obtain ⟨hroot, hnext, hsame⟩ := truncate_frame s node flags
  exact h.congr hroot hnext fun m => (hsame m).1

theorem syscallOpen_treeOk {flags mode : ℕ} (h : TreeOk s) :
    TreeOk (syscallOpen heap s path flags mode).1 :=
  syscallOpen_rule TreeOk (fun _ h => h.congr rfl rfl fun _ => rfl)
    (fun _ _ _ _ h => created_treeOk h) (fun _ _ _ h => truncate_treeOk h)
    (fun _ _ h => openNode_treeOk h) path flags mode h

theorem syscallWrite_treeOk {fd : ℤ} {buf : ℕ → UInt8} {count : ℕ} (h : TreeOk s) :
    TreeOk (syscallWrite heap s fd buf count).1 := by
  unfold syscallWrite
  split
  · exact h
  rename_i obj _
  obtain ⟨-, -, -, hnext, hroot⟩ := memfsWrite_frame heap s (s.objects obj).privateData buf count
    (s.objects obj).offset
  have hw : TreeOk (memfsWrite heap s (s.objects obj).privateData buf count
      (s.objects obj).offset).1 := h.congr hroot hnext fun m => (memfsWrite_tree m).2.2
  dsimp only
  split
  · exact hw.congr rfl rfl fun _ => rfl
  · exact hw

theorem seekExtend_treeOk {newOffset : ℕ} (h : TreeOk s) :
    TreeOk (seekExtend heap s obj newOffset).1 := by
  unfold seekExtend
  split
  · have hsame := extendFile_same heap obj newOffset
      (newOffset - (s.objects obj).offset) s
    exact h.congr hsame.vfsRoot hsame.nextNode hsame.children
  · exact h

theorem syscallLseek_treeOk {fd offset whence : ℤ} (h : TreeOk s) :
    TreeOk (syscallLseek heap s fd offset whence).1 := by
  rcases syscallLseek_cases heap s fd offset whence with hno | ⟨obj, newOffset, hobj, hnew⟩
  · rw [hno]
    exact h
  rw [syscallLseek_eq heap hobj hnew]
  have hext : TreeOk (seekExtend heap s obj newOffset).1 := seekExtend_treeOk h
  split
  · exact hext.congr rfl rfl fun _ => rfl
  · exact hext

theorem syscallClose_treeOk (fd : ℤ) (h : TreeOk s) : TreeOk (syscallClose s fd).1 := by
  unfold syscallClose fdFree
  split
  · exact h
  · split <;> exact h.congr rfl rfl fun _ => rfl

theorem syscallRead_treeOk (fd : ℤ) (count : ℕ) (h : TreeOk s) :
    TreeOk (syscallRead s fd count).1 := by
  unfold syscallRead
  split
  · exact h
  · dsimp only
    split <;> exact h.congr rfl rfl fun _ => rfl

/-- A call keeps the tree. -/
theorem fileStep_treeOk (h : TreeOk s) {c : FileCall} (hs : fileStep heap s c = some s') :
    TreeOk s' := by
  cases c with
  | «open» path flags mode => exact Option.some.inj hs ▸ syscallOpen_treeOk h
  | close fd => exact Option.some.inj hs ▸ syscallClose_treeOk fd h
  | read fd count => exact Option.some.inj hs ▸ syscallRead_treeOk fd count h
  | write fd buf count => exact Option.some.inj hs ▸ syscallWrite_treeOk h
  | lseek fd offset whence => exact Option.some.inj hs ▸ syscallLseek_treeOk h

/-- From `fs_init` on, every path that leads somewhere leads to a node that was made. -/
theorem tree_always (h : fsInit heap = some s) (calls : List FileCall) :
    Always (fileStep heap)
      (fun s => ∀ path node, fsLookup s path = some node → node < s.nextNode) s calls :=
  (always_of_step (fun _ _ _ ht hs => fileStep_treeOk ht hs) (fsInit_treeOk h)).mono
    fun _ ht _ _ hfound => fsLookup_lt ht hfound

end PrismaticOS.Kernel
