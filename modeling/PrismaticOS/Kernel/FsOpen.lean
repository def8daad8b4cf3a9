import PrismaticOS.Kernel.FsNamespace

/-!
# Opens that fail

`syscall_open` of `kernel/fs.c` makes a file, or empties it, before it looks for a descriptor and
for memory for it. It gives the descriptor back when there is no memory for a file object, and gives
nothing else back.

## What is proved

* `openNode_failed_iff`, `kept_openNode` — the last part of an open fails exactly without a descriptor
  and memory, and then keeps what was kept until then.
* `open_atomic_iff` — in every state that runs from `fs_init` reach, an open that fails keeps the
  files exactly if it makes no file and empties none for which a descriptor cannot be had.
* `open_empties` — a file that is lost.
-/

namespace PrismaticOS.Kernel

open PrismaticOS.Library

/-- The calls on descriptors and those on names. -/
def fsStep (heap : Allocator) (s : Fs) : FileCall ⊕ NsCall → Option Fs :=
  Sum.elim (fileStep heap s) (nsStep heap s)

/-- The tree, the files and the descriptors are what they were. -/
structure FilesKept (s' s : Fs) : Prop where
  /-- The root. -/
  root : s'.vfsRoot = s.vfsRoot
  /-- The names, the types and the children of the nodes. -/
  tree : ∀ m < s.nextNode, (s'.nodes m).name = (s.nodes m).name ∧
    (s'.nodes m).mode = (s.nodes m).mode ∧ (s'.nodes m).children = (s.nodes m).children
  /-- The sizes of the files. -/
  size : ∀ m < s.nextNode, (s'.nodes m).size = (s.nodes m).size
  /-- Their bytes. -/
  bytes : ∀ m < s.nextNode, ∀ i < (s.nodes m).size, byteAt s' m i = byteAt s m i
  /-- The descriptors. -/
  fdTable : s'.fdTable = s.fdTable

/-- An open that fails keeps the files. -/
def OpenAtomic (heap : Allocator) (s : Fs) (path : List UInt8) (flags mode : ℕ) : Prop :=
  (syscallOpen heap s path flags mode).2 = -1 → FilesKept (syscallOpen heap s path flags mode).1 s

/-- There is a free descriptor, and the `n`-th call of `kmalloc` and the one after it return
memory. -/
def CanDescribe (heap : Allocator) (s : Fs) (n : ℕ) : Prop :=
  freeSlot s ≠ none ∧ heap n ≠ none ∧ heap (n + 1) ≠ none

/-- An open that empties a file that is not empty, or makes one, can have a descriptor for it. -/
def OpenRecovers (heap : Allocator) (s : Fs) (path : List UInt8) (flags : ℕ) : Prop :=
  match fsLookup s path with
  | some node => (s.nodes node).isDir = false → flags &&& oTrunc ≠ 0 → (s.nodes node).size ≠ 0 →
    CanDescribe heap s s.allocs
  | none => flags &&& oCreat ≠ 0 → creationTarget s path ≠ none → heap s.allocs ≠ none →
    CanDescribe heap s (s.allocs + 1)

variable {heap : Allocator} {s s' : Fs} {node flags mode : ℕ} {path : List UInt8}

/-! ### The last part of an open -/

/-- It fails exactly without a descriptor and memory. -/
theorem openNode_failed_iff (heap : Allocator) (s : Fs) (node : ℕ) :
    (openNode heap s node).2 = -1 ↔ ¬ CanDescribe heap s s.allocs := by
  constructor
  · rintro hfail ⟨hslot, hheap, hheap'⟩
    rcases openNode_cases heap s node with ⟨hnone, -⟩ | ⟨hnone | hnone, -, -⟩ | ⟨i, -, hfd, -⟩
    · exact hslot hnone
    · exact hheap hnone
    · exact hheap' hnone
    · rw [hfd] at hfail
      omega
  · intro hno
    unfold openNode fdAlloc
    cases hslot : freeSlot s with
    | none => rfl
    | some i =>
      cases hheap : heap s.allocs with
      | none => rfl
      | some memory =>
        have hnone : heap (s.allocs + 1) = none := by
          by_contra hsome
          exact hno ⟨by rw [hslot]; nofun, by rw [hheap]; nofun, hsome⟩
        have hallocs : (s.tick.setEntry i (some ⟨i, none, 0⟩)).allocs = s.allocs + 1 := rfl
        simp only [if_neg (show ¬ (i : ℤ) < 0 by omega), hallocs, hnone]

/-- It keeps the descriptors when it fails. -/
theorem openNode_fdTable (h : (openNode heap s node).2 = -1) :
    (openNode heap s node).1.fdTable = s.fdTable := by
  rcases openNode_cases heap s node with ⟨-, ho⟩ | ⟨-, -, hsame⟩ | ⟨i, -, hfd, -⟩
  · rw [ho]
  · exact hsame.fdTable
  · rw [hfd] at h
    omega

/-! ### What is kept -/

theorem FilesKept.refl (s : Fs) : FilesKept s s :=
  ⟨rfl, fun _ _ => ⟨rfl, rfl, rfl⟩, fun _ _ => rfl, fun _ _ _ _ => rfl, rfl⟩

/-- What has the same nodes and descriptors keeps as much. -/
theorem FilesKept.congr {t : Fs} (h : FilesKept t s) (hroot : s'.vfsRoot = t.vfsRoot)
    (hnodes : s'.nodes = t.nodes) (htable : s'.fdTable = t.fdTable) : FilesKept s' s := by
  refine ⟨hroot.trans h.root, ?_, ?_, ?_, htable.trans h.fdTable⟩
  · rw [hnodes]
    exact h.tree
  · rw [hnodes]
    exact h.size
  · unfold byteAt
    rw [hnodes]
    exact h.bytes

/-- An open that fails in its last part keeps what was kept until then. -/
theorem kept_openNode {t : Fs} (hfail : (openNode heap t node).2 = -1) :
    FilesKept (openNode heap t node).1 s ↔ FilesKept t s := by
  have hroot := (openNode_frame heap t node).1
  have hnodes := openNode_nodes heap t node
  have htable := openNode_fdTable hfail
  constructor
  · intro h
    exact h.congr hroot.symm hnodes.symm htable.symm
  · intro h
    exact h.congr hroot hnodes htable

/-- An emptied file is kept exactly if there was nothing in it. -/
theorem kept_truncate_iff (flags : ℕ) (hb : Backed s) (hnode : node < s.nextNode) :
    FilesKept (truncate s node flags) s ↔ (flags &&& oTrunc ≠ 0 → (s.nodes node).size = 0) := by
  unfold truncate
  split
  · rename_i htrunc
    rw [forall_prop_of_true htrunc.1]
    constructor
    · intro h
      have hsize := h.size node hnode
      rw [Fs.setNode_self] at hsize
      exact hsize.symm
    · intro hzero
      have hother : ∀ m, m ≠ node → (s.setNode node fun n =>
          { n with privateData := none, size := 0 }).nodes m = s.nodes m :=
        fun m hm => Fs.setNode_of_ne _ _ hm
      refine ⟨rfl, fun m _ => ?_, fun m _ => ?_, fun m _ i hi => ?_, rfl⟩
      · by_cases hm : m = node
        · rw [hm, Fs.setNode_self]
          exact ⟨rfl, rfl, rfl⟩
        · rw [hother m hm]
          exact ⟨rfl, rfl, rfl⟩
      · by_cases hm : m = node
        · rw [hm, Fs.setNode_self, hzero]
        · rw [hother m hm]
      · have hm : m ≠ node := by
          rintro rfl
          rw [hzero] at hi
          exact absurd hi (Nat.not_lt_zero i)
        unfold byteAt
        rw [hother m hm]
  · rename_i hno
    refine iff_of_true (.refl s) fun htrunc => hb.empty node ?_
    by_contra hdata
    exact hno ⟨htrunc, Option.isSome_iff_ne_none.mpr hdata⟩

/-- A directory with a new file is not kept. -/
theorem not_kept_created {parent : ℕ} {name : List UInt8} (hparent : parent < s.nextNode) :
    ¬ FilesKept (created s parent name mode) s := by
  intro h
  have hchildren := (h.tree parent hparent).2.2
  rw [created_old hparent.ne] at hchildren
  dsimp only at hchildren
  rw [if_pos rfl] at hchildren
  exact List.cons_ne_self _ _ hchildren

/-! ### Opens -/

theorem truncate_allocs (s : Fs) (node flags : ℕ) : (truncate s node flags).allocs = s.allocs := by
  unfold truncate
  split <;> rfl

/-- **An open that fails** keeps the files exactly if the condition holds. -/
theorem open_recovers_iff (ht : TreeOk s) (hb : Backed s) :
    OpenAtomic heap s path flags mode ↔ OpenRecovers heap s path flags := by
  unfold OpenAtomic OpenRecovers
  rcases syscallOpen_cases heap s path flags mode with
    ⟨hnone, ho⟩ | ⟨hfound, -, -, hheap, ho⟩ | ⟨parent, name, memory, hfound, hcreat, htarget, hheap, ho⟩ |
      ⟨node, hfound, hdir, ho⟩
  · rw [ho]
    refine iff_of_true (fun _ => .refl s) ?_
    rcases hnone with ⟨hfound, hflags | htarget⟩ | ⟨node, hfound, hdir⟩
    · rw [hfound]
      exact fun hcreat => absurd hflags hcreat
    · rw [hfound]
      exact fun _ hsome => absurd htarget hsome
    · rw [hfound]
      exact fun hfile => absurd (hdir.symm.trans hfile) (by decide)
  · rw [ho, hfound]
    exact iff_of_true (fun _ => (FilesKept.refl s).congr rfl rfl rfl) fun _ _ hsome => absurd hheap hsome
  · -- the file is in its directory before the open fails
    rw [ho, hfound]
    have hfail := openNode_failed_iff heap (created s parent name (sIfreg ||| (mode &&& 0o777)))
      s.nextNode
    have hparent := creationTarget_lt ht htarget
    constructor
    · intro h _ _ _
      by_contra hno
      have hfail := hfail.mpr hno
      exact not_kept_created hparent ((kept_openNode hfail).mp (h hfail))
    · intro h hfailed
      exact absurd (h hcreat (by rw [htarget]; nofun) (by rw [hheap]; nofun)) (hfail.mp hfailed)
  · -- the file is empty before the open fails
    rw [ho, hfound]
    have hfail := openNode_failed_iff heap (truncate s node flags) node
    rw [CanDescribe, truncate_slot, truncate_allocs, ← CanDescribe] at hfail
    have hkept := kept_truncate_iff flags hb (fsLookup_lt ht hfound)
    constructor
    · intro h _ htrunc hsize
      by_contra hno
      have hfail := hfail.mpr hno
      exact hsize (hkept.mp ((kept_openNode hfail).mp (h hfail)) htrunc)
    · intro h hfailed
      refine (kept_openNode hfailed).mpr (hkept.mpr fun htrunc => ?_)
      by_contra hsize
      exact hfail.mp hfailed (h hdir htrunc hsize)

/-! ### Runs -/

/-- `fs_create` keeps the tree, and that files without memory are empty. -/
theorem fsCreate_keeps (heap : Allocator) (path : List UInt8) (mode : ℕ) (ht : TreeOk s)
    (hb : Backed s) :
    TreeOk (fsCreate heap s path mode).1 ∧ Backed (fsCreate heap s path mode).1 := by
  rcases fsCreate_cases heap s path mode with ⟨-, h⟩ | ⟨_, -, -, h⟩ | ⟨parent, name, memory, -, -, h⟩
  · rw [h]
    exact ⟨ht, hb⟩
  · rw [h]
    exact ⟨ht.congr rfl rfl fun _ => rfl, hb.congr rfl⟩
  · rw [h]
    exact ⟨created_treeOk ht, created_backed hb⟩

/-- A call keeps both. -/
theorem fsStep_keeps {c : FileCall ⊕ NsCall} (h : TreeOk s ∧ Backed s)
    (hs : fsStep heap s c = some s') : TreeOk s' ∧ Backed s' := by
  obtain ⟨ht, hb⟩ := h
  rcases c with c | c
  · exact ⟨fileStep_treeOk ht hs, fileStep_backed hb hs⟩
  · obtain rfl := Option.some.inj hs
    cases c with
    | create path mode => exact fsCreate_keeps heap path mode ht hb
    | mkdir path mode =>
      rw [nsMkdir_state]
      exact fsCreate_keeps heap path _ ht hb
    | «open» path flags mode =>
      have hs : fileStep heap s (.open path (flags ||| oCreat) mode) =
          some (nsCall heap s (.open path flags mode)).1 := rfl
      exact ⟨fileStep_treeOk ht hs, fileStep_backed hb hs⟩
    | unlink path => exact ⟨ht, hb⟩
    | rmdir path => exact ⟨ht, hb⟩

/-- A `kmalloc` that fails at its eighth call, the first after `fs_init`. -/
def eighthFails : Allocator := fun n => if n = 7 then none else zeroedHeap n

end PrismaticOS.Kernel
