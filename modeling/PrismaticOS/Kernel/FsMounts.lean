import PrismaticOS.Libc.Strings
import PrismaticOS.Library.Runs

/-!
# Mounts

`fs_register_filesystem`, `fs_mount` and `fs_unmount` of `kernel/fs.c`. A file system has one field
for the place where it is mounted. The field is not set when the file system is registered, a second
mount overwrites it, and an unmount empties it; `fs_unmount` compares it with any string, also when
nothing is mounted there.

## The model

A `filesystem_t` is the number of the call of `kmalloc` that made it; the last one is the head of the
list. `kmalloc` is an oracle for what is in the memory it returns. What `fs_ops->mount` returns is
part of the call, and what `fs_ops->unmount` returns is not looked at. Beside the table a run has the
mounts that were made and not undone since.

## What is proved

* `mount_table_iff` — in a run, all mounts that were made and not undone since stay in the table, and
  every unmount keeps its promise, exactly if no file system is mounted that is mounted already, and
  what an unmount finds is mounted.
* `mount_lost` — a mount that cannot be undone.
-/

namespace PrismaticOS.Kernel

open PrismaticOS.Library PrismaticOS.Libc

/-! ### The table -/

/-- A `filesystem_t`. -/
structure Filesystem where
  /-- Its name, at most 31 bytes. -/
  name : List UInt8
  /-- Where it is mounted: the bytes of the field. -/
  mountpoint : Mem
  /-- The node that it is mounted with, or `NULL`. -/
  root : ℕ
  deriving Inhabited

/-- `filesystems`, and what it points at. -/
structure MountTable where
  /-- The file systems. -/
  records : ℕ → Filesystem
  /-- How many were registered. -/
  count : ℕ
  /-- How many calls of `kmalloc` were made. -/
  allocs : ℕ

/-- A mountpoint: a string that is shorter than the field for it. -/
@[ext] structure MountPath where
  /-- Its bytes, without the final zero. -/
  bytes : List UInt8
  /-- There is no zero in it. -/
  noZero : 0 ∉ bytes
  /-- It is short. -/
  short : bytes.length < 256

namespace MountTable

/-- The list of the file systems, the last one first. -/
def filesystems (t : MountTable) : List ℕ := (List.range t.count).reverse

/-- What a file system's pointer points at changes. -/
def setRecord (t : MountTable) (fs : ℕ) (f : Filesystem → Filesystem) : MountTable :=
  { t with records := Function.update t.records fs (f (t.records fs)) }

end MountTable

/-- `fs_register_filesystem`. -/
def fsRegisterFilesystem (heap : ℕ → Option Mem) (t : MountTable) (name : List UInt8) :
    MountTable × ℤ :=
  match heap t.allocs with
  | none => ({ t with allocs := t.allocs + 1 }, -1)
  | some memory =>
    -- the fields `mountpoint` and `root` are what was in the memory
    (⟨Function.update t.records t.count
        ⟨name.take 31, fun i => memory (32 + i), loadLE memory 288 8⟩, t.count + 1, t.allocs + 1⟩, 0)

/-- The loop of `fs_mount`: the file system of a name. -/
def findFilesystem (t : MountTable) (fsName : List UInt8) : Option ℕ :=
  t.filesystems.find? fun fs => (t.records fs).name = fsName

/-- `strncpy(fs->mountpoint, mountpoint, 255)`, and a zero at the end. -/
def copyMountpoint (old : Mem) (mountpoint : List UInt8) : Mem := fun i =>
  if i < 255 then mountpoint.getD i 0 else if i = 255 then 0 else old i

/-- What `fs_mount` makes of a file system. -/
def Filesystem.mountAt (r : Filesystem) (mountpoint : List UInt8) (mountNode : ℕ) : Filesystem :=
  { r with mountpoint := copyMountpoint r.mountpoint mountpoint, root := mountNode }

/-- `fs_mount`, where `fs_ops->mount` returns `mountNode`. -/
def fsMount (t : MountTable) (fsName : List UInt8) (mountpoint : MountPath) (mountNode : ℕ) :
    MountTable × ℤ :=
  match findFilesystem t fsName with
  | none => (t, -1)
  | some fs =>
    if mountNode = 0 then (t, -1)
    else (t.setRecord fs fun r => r.mountAt mountpoint.bytes mountNode, 0)

/-- The loop of `fs_unmount`: the first file system whose field has that string. -/
def findMount (t : MountTable) (mountpoint : MountPath) : Option ℕ :=
  t.filesystems.find? fun fs => strcmp (t.records fs).mountpoint mountpoint.bytes 0 = 0

/-- What `fs_unmount` makes of a file system. -/
def Filesystem.clear (r : Filesystem) : Filesystem :=
  { r with mountpoint := Function.update r.mountpoint 0 0, root := 0 }

/-- `fs_unmount`. -/
def fsUnmount (t : MountTable) (mountpoint : MountPath) : MountTable × ℤ :=
  match findMount t mountpoint with
  | none => (t, -1)
  | some fs => (t.setRecord fs Filesystem.clear, 0)

/-! ### Runs -/

/-- A mount that was made. -/
structure Mount where
  /-- The file system. -/
  fs : ℕ
  /-- Where it was mounted. -/
  mountpoint : MountPath
  /-- The node that it was mounted with. -/
  root : ℕ

/-- The table, and the mounts that were made and not undone since. -/
structure Mounted where
  /-- The table. -/
  table : MountTable
  /-- The mounts, the last one first. -/
  mounts : List Mount

/-- A call. -/
inductive MountCall where
  /-- `fs_register_filesystem(name, ops)`. -/
  | register (name : List UInt8)
  /-- `fs_mount(fs_name, device, mountpoint)`; `ops->mount` returns `mountNode`. -/
  | mount (fsName : List UInt8) (mountpoint : MountPath) (mountNode : ℕ)
  /-- `fs_unmount(mountpoint)`. -/
  | unmount (mountpoint : MountPath)

/-- The mounts after a call of `fs_mount`. -/
def mountsAfterMount (s : Mounted) (fsName : List UInt8) (mountpoint : MountPath) (mountNode : ℕ) :
    List Mount :=
  match findFilesystem s.table fsName with
  | none => s.mounts
  | some fs => if mountNode = 0 then s.mounts else ⟨fs, mountpoint, mountNode⟩ :: s.mounts

/-- The mounts after a call of `fs_unmount`: one of the file system that it found is undone. -/
def mountsAfterUnmount (s : Mounted) (mountpoint : MountPath) : List Mount :=
  match findMount s.table mountpoint with
  | none => s.mounts
  | some fs => s.mounts.eraseP fun x => x.fs = fs

/-- A step of a run. -/
def mountStep (heap : ℕ → Option Mem) (s : Mounted) : MountCall → Option Mounted
  | .register name => some ⟨(fsRegisterFilesystem heap s.table name).1, s.mounts⟩
  | .mount fsName mountpoint mountNode =>
    some ⟨(fsMount s.table fsName mountpoint mountNode).1,
      mountsAfterMount s fsName mountpoint mountNode⟩
  | .unmount mountpoint =>
    some ⟨(fsUnmount s.table mountpoint).1, mountsAfterUnmount s mountpoint⟩

/-- Before any call: no file system, and nothing mounted. -/
def noMounts : Mounted := ⟨⟨fun _ => default, 0, 0⟩, []⟩

/-- Every mount is in the table, in a file system of its own. -/
structure InTable (s : Mounted) : Prop where
  /-- No two are of one file system. -/
  apart : (s.mounts.map Mount.fs).Nodup
  /-- The file system is in the list. -/
  listed : ∀ x ∈ s.mounts, x.fs < s.table.count
  /-- It has the mountpoint. -/
  mountpoint : ∀ x ∈ s.mounts, IsString (s.table.records x.fs).mountpoint 0 x.mountpoint.bytes
  /-- It has the node. -/
  root : ∀ x ∈ s.mounts, (s.table.records x.fs).root = x.root ∧ x.root ≠ 0

/-- An unmount returns 0 exactly if there is such a mount, and removes that mount only. -/
def UnmountPromise (s : Mounted) (c : MountCall) (s' : Mounted) : Prop :=
  ∀ mountpoint, c = .unmount mountpoint →
    ((fsUnmount s.table mountpoint).2 = 0 ↔ ∃ x ∈ s.mounts, x.mountpoint = mountpoint) ∧
      ((fsUnmount s.table mountpoint).2 = 0 → ∃ x ∈ s.mounts, x.mountpoint = mountpoint ∧
        (s'.table.records x.fs).root = 0 ∧ (s'.table.records x.fs).mountpoint 0 = 0 ∧
        ∀ fs, fs ≠ x.fs → s'.table.records fs = s.table.records fs)

/-- No file system is mounted that is mounted already, and the first one that has the string of an
unmount is mounted. -/
def MountOk (s : Mounted) : MountCall → Prop
  | .register _ => True
  | .mount fsName _ mountNode => mountNode ≠ 0 → ∀ fs, findFilesystem s.table fsName = some fs →
    ∀ x ∈ s.mounts, x.fs ≠ fs
  | .unmount mountpoint => ∀ fs, findMount s.table mountpoint = some fs → ∃ x ∈ s.mounts, x.fs = fs

variable {heap : ℕ → Option Mem} {s s' : Mounted} {t : MountTable} {m : Mem} {fs mountNode : ℕ}
  {name fsName text : List UInt8} {mountpoint : MountPath}

/-! ### Strings -/

/-- What `strcmp` finds equal to a string is that string. -/
theorem isString_of_strcmp {p : ℕ} (hname : 0 ∉ name) (h : strcmp m name p = 0) :
    IsString m p name := by
  induction name generalizing p with
  | nil =>
    have hbyte : (m p).toNat = 0 := by
      rw [strcmp] at h
      omega
    exact UInt8.toNat_inj.mp hbyte
  | cons c name ih =>
    obtain ⟨hc, hname⟩ := not_or.mp (List.mem_cons.not.mp hname)
    rw [strcmp] at h
    split at h
    · rename_i hsame
      exact ⟨hsame.2.2.symm, hsame.1, ih hname h⟩
    · rename_i hne
      have hsame : c = m p := UInt8.toNat_inj.mp (by omega)
      exact absurd ⟨Ne.symm hc, hsame ▸ Ne.symm hc, hsame⟩ hne

/-- The field has one string. -/
theorem strcmp_iff_isString (mountpoint : MountPath) :
    strcmp m mountpoint.bytes 0 = 0 ↔ IsString m 0 mountpoint.bytes :=
  ⟨isString_of_strcmp mountpoint.noZero, fun h => (strcmp_eq_zero_iff h mountpoint.noZero).mpr rfl⟩

theorem mountPath_unique {x y : MountPath} (hx : IsString m 0 x.bytes) (hy : IsString m 0 y.bytes) :
    x = y :=
  MountPath.ext ((strcmp_eq_zero_iff hy x.noZero).mp ((strcmp_iff_isString x).mpr hx))

/-- A mountpoint fits into the field. -/
theorem copyMountpoint_isString (mountpoint : MountPath) :
    IsString (copyMountpoint m mountpoint.bytes) 0 mountpoint.bytes := by
  refine IsString.of_getD (fun i hi => ?_) mountpoint.noZero
  have hshort := mountpoint.short
  rw [Nat.zero_add, copyMountpoint]
  split
  · rfl
  · rw [if_pos (by omega), List.getD_eq_getElem?_getD,
      List.getElem?_eq_none (by omega)]
    rfl

/-! ### The loops -/

theorem mem_filesystems : fs ∈ t.filesystems ↔ fs < t.count := by
  rw [MountTable.filesystems, List.mem_reverse, List.mem_range]

/-- What `fs_mount` finds is in the list. -/
theorem findFilesystem_lt (h : findFilesystem t fsName = some fs) : fs < t.count :=
  mem_filesystems.mp (List.mem_of_find?_eq_some h)

/-- What `fs_unmount` finds is in the list and has the string. -/
theorem findMount_some (h : findMount t mountpoint = some fs) :
    fs < t.count ∧ IsString (t.records fs).mountpoint 0 mountpoint.bytes := by
  unfold findMount at h
  have hfound := List.find?_some h
  exact ⟨mem_filesystems.mp (List.mem_of_find?_eq_some h),
    (strcmp_iff_isString mountpoint).mp (of_decide_eq_true hfound)⟩

/-- It finds something if a file system has the string. -/
theorem findMount_ne_none (hfs : fs < t.count)
    (h : IsString (t.records fs).mountpoint 0 mountpoint.bytes) : findMount t mountpoint ≠ none := by
  intro hnone
  have hno := List.find?_eq_none.mp hnone fs (mem_filesystems.mpr hfs)
  exact hno (decide_eq_true ((strcmp_iff_isString mountpoint).mpr h))

theorem setRecord_self (t : MountTable) (fs : ℕ) (f : Filesystem → Filesystem) :
    (t.setRecord fs f).records fs = f (t.records fs) := Function.update_self ..

theorem setRecord_of_ne (t : MountTable) {fs fs' : ℕ} (f : Filesystem → Filesystem) (h : fs' ≠ fs) :
    (t.setRecord fs f).records fs' = t.records fs' := Function.update_of_ne h ..

/-- The mounts stay in a table that keeps their file systems. -/
theorem InTable.congr {t' : MountTable} (h : InTable s) (hcount : s.table.count ≤ t'.count)
    (hsame : ∀ x ∈ s.mounts, t'.records x.fs = s.table.records x.fs) : InTable ⟨t', s.mounts⟩ := by
  refine ⟨h.apart, fun x hx => (h.listed x hx).trans_le hcount, fun x hx => ?_, fun x hx => ?_⟩
  · show IsString (t'.records x.fs).mountpoint 0 _
    rw [hsame x hx]
    exact h.mountpoint x hx
  · show (t'.records x.fs).root = x.root ∧ _
    rw [hsame x hx]
    exact h.root x hx

/-- Fewer mounts stay in the table. -/
theorem InTable.sublist {mounts : List Mount} (h : InTable s) (hsub : mounts.Sublist s.mounts) :
    InTable ⟨s.table, mounts⟩ :=
  ⟨h.apart.sublist (hsub.map _), fun x hx => h.listed x (hsub.mem hx),
    fun x hx => h.mountpoint x (hsub.mem hx), fun x hx => h.root x (hsub.mem hx)⟩

/-! ### The calls -/

/-- `fs_register_filesystem` keeps the mounts. -/
theorem register_inTable (h : InTable s) :
    InTable ⟨(fsRegisterFilesystem heap s.table name).1, s.mounts⟩ := by
  unfold fsRegisterFilesystem
  split
  · exact h.congr le_rfl fun _ _ => rfl
  · exact h.congr (Nat.le_succ _) fun x hx => Function.update_of_ne (h.listed x hx).ne ..

/-- `fs_mount` keeps them and adds its own, if the file system is not mounted. -/
theorem mount_inTable (h : InTable s) (hok : MountOk s (.mount fsName mountpoint mountNode)) :
    InTable ⟨(fsMount s.table fsName mountpoint mountNode).1,
      mountsAfterMount s fsName mountpoint mountNode⟩ := by
  unfold fsMount mountsAfterMount
  cases hfind : findFilesystem s.table fsName with
  | none => exact h
  | some fs =>
    dsimp only
    split
    · exact h
    · rename_i hnode
      have hfree := hok hnode fs hfind
      have hlisted := findFilesystem_lt hfind
      have hself := setRecord_self s.table fs fun r => r.mountAt mountpoint.bytes mountNode
      have hold : InTable ⟨s.table.setRecord fs fun r => r.mountAt mountpoint.bytes mountNode, s.mounts⟩ :=
        h.congr le_rfl fun x hx => setRecord_of_ne _ _ (hfree x hx)
      refine ⟨?_, ?_, ?_, ?_⟩
      · rw [List.map_cons, List.nodup_cons]
        refine ⟨fun hmem => ?_, h.apart⟩
        obtain ⟨x, hx, hsame⟩ := List.mem_map.mp hmem
        exact hfree x hx hsame
      · exact List.forall_mem_cons.mpr ⟨hlisted, hold.listed⟩
      · refine List.forall_mem_cons.mpr ⟨?_, hold.mountpoint⟩
        dsimp only
        rw [hself]
        exact copyMountpoint_isString mountpoint
      · refine List.forall_mem_cons.mpr ⟨?_, hold.root⟩
        dsimp only
        rw [hself]
        exact ⟨rfl, hnode⟩

/-- A mount of a file system that is mounted is not in a file system of its own. -/
theorem mount_breaks (hno : ¬ MountOk s (.mount fsName mountpoint mountNode)) :
    ¬ InTable ⟨(fsMount s.table fsName mountpoint mountNode).1,
      mountsAfterMount s fsName mountpoint mountNode⟩ := by
  intro h
  refine hno fun hnode fs hfind x hx hsame => ?_
  have hapart := h.apart
  simp only [mountsAfterMount, hfind, if_neg hnode, List.map_cons, List.nodup_cons] at hapart
  exact hapart.1 (List.mem_map.mpr ⟨x, hx, hsame⟩)

/-- A failed unmount finds no mount. -/
theorem unmount_none (h : InTable s) (hfind : findMount s.table mountpoint = none) :
    ¬ ∃ x ∈ s.mounts, x.mountpoint = mountpoint := by
  rintro ⟨x, hx, rfl⟩
  exact findMount_ne_none (h.listed x hx) (h.mountpoint x hx) hfind

/-- What is left of a list after the one with the key `a` is taken out has other keys. -/
theorem ne_of_mem_eraseP {mounts : List Mount} (h : (mounts.map Mount.fs).Nodup) {y : Mount}
    (hy : y ∈ mounts.eraseP fun x => x.fs = fs) : y.fs ≠ fs := by
  induction mounts with
  | nil => cases hy
  | cons x mounts ih =>
    rw [List.map_cons, List.nodup_cons] at h
    rw [List.eraseP_cons] at hy
    by_cases hx : x.fs = fs
    · rw [decide_eq_true hx, cond_true] at hy
      rintro rfl
      exact h.1 (hx ▸ List.mem_map_of_mem hy)
    · rw [decide_eq_false hx, cond_false] at hy
      rcases List.mem_cons.mp hy with rfl | hy
      · exact hx
      · exact ih h.2 hy

theorem fsUnmount_some (h : findMount t mountpoint = some fs) :
    fsUnmount t mountpoint = (t.setRecord fs Filesystem.clear, 0) := by
  simp only [fsUnmount, h]

theorem fsUnmount_none (h : findMount t mountpoint = none) : fsUnmount t mountpoint = (t, -1) := by
  simp only [fsUnmount, h]

/-- An unmount that finds a mounted file system removes its mount. -/
theorem unmount_keeps (h : InTable s) (hok : MountOk s (.unmount mountpoint)) :
    InTable ⟨(fsUnmount s.table mountpoint).1, mountsAfterUnmount s mountpoint⟩ ∧
      UnmountPromise s (.unmount mountpoint)
        ⟨(fsUnmount s.table mountpoint).1, mountsAfterUnmount s mountpoint⟩ := by
  cases hfind : findMount s.table mountpoint with
  | none =>
    have hmounts : mountsAfterUnmount s mountpoint = s.mounts := by simp only [mountsAfterUnmount, hfind]
    rw [hmounts, fsUnmount_none hfind]
    refine ⟨h, ?_⟩
    rintro _ ⟨⟩
    rw [fsUnmount_none hfind]
    have hfail : ¬ (-1 : ℤ) = 0 := by decide
    exact ⟨iff_of_false hfail (unmount_none h hfind), fun hzero => absurd hzero hfail⟩
  | some fs =>
    obtain ⟨x, hx, rfl⟩ := hok fs hfind
    obtain ⟨-, hstring⟩ := findMount_some hfind
    have hpath : x.mountpoint = mountpoint := mountPath_unique (h.mountpoint x hx) hstring
    have hmounts : mountsAfterUnmount s mountpoint = s.mounts.eraseP fun y => y.fs = x.fs := by
      simp only [mountsAfterUnmount, hfind]
    have hself := setRecord_self s.table x.fs Filesystem.clear
    rw [hmounts, fsUnmount_some hfind]
    constructor
    · -- the mounts that are left are of other file systems
      have hleft := h.sublist (List.eraseP_sublist (p := fun y => y.fs = x.fs))
      exact hleft.congr le_rfl fun y hy => setRecord_of_ne _ _ (ne_of_mem_eraseP h.apart hy)
    · rintro _ ⟨⟩
      rw [fsUnmount_some hfind]
      refine ⟨iff_of_true rfl ⟨x, hx, hpath⟩, fun _ => ⟨x, hx, hpath, ?_, ?_, ?_⟩⟩
      · dsimp only
        rw [hself]
        rfl
      · dsimp only
        rw [hself]
        rfl
      · exact fun _ hne => setRecord_of_ne _ _ hne

/-- An unmount that finds a file system that is not mounted breaks its promise. -/
theorem unmount_breaks (h : InTable s) (hno : ¬ MountOk s (.unmount mountpoint)) :
    ¬ UnmountPromise s (.unmount mountpoint)
      ⟨(fsUnmount s.table mountpoint).1, mountsAfterUnmount s mountpoint⟩ := by
  intro hpromise
  refine hno fun fs hfind => ?_
  obtain ⟨x, hx, -, hroot, -, -⟩ := (hpromise mountpoint rfl).2 (by rw [fsUnmount_some hfind])
  refine ⟨x, hx, ?_⟩
  by_contra hne
  -- the mount that should be gone is in another file system, which keeps its root
  rw [fsUnmount_some hfind] at hroot
  dsimp only at hroot
  rw [setRecord_of_ne _ _ hne, (h.root x hx).1] at hroot
  exact (h.root x hx).2 hroot

/-! ### The law of the table -/

theorem mountStep_keeps {c : MountCall} (h : InTable s) (hok : MountOk s c)
    (hs : mountStep heap s c = some s') : InTable s' ∧ UnmountPromise s c s' := by
  cases c with
  | register name =>
    obtain rfl := Option.some.inj hs
    exact ⟨register_inTable h, nofun⟩
  | mount fsName mountpoint mountNode =>
    obtain rfl := Option.some.inj hs
    exact ⟨mount_inTable h hok, nofun⟩
  | unmount mountpoint =>
    obtain rfl := Option.some.inj hs
    exact unmount_keeps h hok

theorem mountStep_breaks {c : MountCall} (h : InTable s) (hno : ¬ MountOk s c)
    (hs : mountStep heap s c = some s') (h' : InTable s') : ¬ UnmountPromise s c s' := by
  cases c with
  | register name => exact absurd trivial hno
  | mount fsName mountpoint mountNode =>
    obtain rfl := Option.some.inj hs
    exact absurd h' (mount_breaks hno)
  | unmount mountpoint =>
    obtain rfl := Option.some.inj hs
    exact unmount_breaks h hno

theorem noMounts_inTable : InTable noMounts := by
  refine ⟨List.nodup_nil, ?_, ?_, ?_⟩
  all_goals exact fun _ hx => absurd hx List.not_mem_nil

/-- **When the table is right**: in a run from the empty table, the mounts that were made and not
undone since are all in the table and every unmount keeps its promise, exactly if every call meets
the condition. -/
theorem mount_table_iff (heap : ℕ → Option Mem) (calls : List MountCall) :
    Always (mountStep heap) InTable noMounts calls ∧
        Along (mountStep heap) UnmountPromise noMounts calls ↔
      Each (mountStep heap) MountOk noMounts calls := by
  apply along_iff_each (fun s (h : InTable s) => h) _ _ noMounts_inTable
  · exact fun s c s' h hok hs => mountStep_keeps h hok hs
  · exact fun s c s' h hno hs h' => mountStep_breaks h hno hs h'

/-- `/mnt`. -/
def mnt : MountPath := ⟨[47, 109, 110, 116], by decide, by decide⟩

/-- `/usr`. -/
def usr : MountPath := ⟨[47, 117, 115, 114], by decide, by decide⟩

/-- A file system is mounted at `/mnt` and at `/usr`; it cannot be unmounted from `/mnt`. -/
theorem mount_lost : ¬ ∀ (heap : ℕ → Option Mem) (calls : List MountCall),
    Along (mountStep heap) UnmountPromise noMounts calls := by
  intro h
  have hrun := h (fun _ => some fun _ => 255)
    [.register [102, 115], .mount [102, 115] mnt 8, .mount [102, 115] usr 8, .unmount mnt]
  have hpromise := ((hrun _ rfl).2 _ rfl).2 _ rfl
  exact absurd (((hpromise.2 _ rfl).1 mnt rfl).1.mpr ⟨⟨0, mnt, 8⟩, .tail _ (.head _), rfl⟩)
    (by decide +kernel)

end PrismaticOS.Kernel
