import Mathlib.Logic.Function.Basic
import PrismaticOS.Library.Split
import PrismaticOS.Library.Words
import PrismaticOS.Library.Runs

/-!
# The file system

`kernel/fs.c`: the tree of `vfs_node_t`, the paths that lead through it, the files
kept in memory, and the descriptors that are open on them.

## The model

Strings are lists of bytes without the final zero. A node, a file object or a
descriptor is the number of the allocation that made it. A node has the list of its
children, the last one added first, where the code threads them through `next`; the
fields that are written and never read (times, the number of the inode, the parent)
are left out. Every node is a file in memory, so `ops` always is `memfs_file_ops`.

`kmalloc` is an oracle `heap`: the `n`-th call returns `NULL`, or memory with some
contents. The contents of a file are a function from indices: `memcpy` to an index past
the end of the buffer is kept there, and who else has that memory is not here. Sizes
and offsets are 64-bit words, `ssize_t` has 32 bits and `off_t` 64, as in `fs.h`.
`strtok` is the one of the libc in the repository, `strncpy` the standard one.
-/

namespace PrismaticOS.Kernel

open PrismaticOS.Library

/-! ### Nodes, files and descriptors -/

/-- Memory from `kmalloc`. -/
structure Buffer where
  /-- The size it was asked for. -/
  capacity : ℕ
  /-- What is in it. -/
  bytes : ℕ → UInt8

/-- A `vfs_node_t`. -/
structure Node where
  /-- Its name, at most 255 bytes. -/
  name : List UInt8
  /-- Its type and its permissions. -/
  mode : ℕ
  /-- How many bytes the file has. -/
  size : ℕ
  /-- Its children, the last one added first. -/
  children : List ℕ
  /-- The bytes of the file. -/
  privateData : Option Buffer
  deriving Inhabited

/-- A `file_object_t`. -/
structure FileObject where
  /-- The size of the file, as it was last seen. -/
  size : ℕ
  /-- Where the next access is. -/
  offset : ℕ
  /-- The node of the file. -/
  privateData : ℕ
  deriving Inhabited

/-- A `file_descriptor_t`. -/
structure FileDescriptor where
  /-- Its number. -/
  fd : ℕ
  /-- Its file object. -/
  fileObject : Option ℕ
  /-- The offset of the file object. -/
  offset : ℕ

/-- The static variables of `fs.c`, and what they point at. -/
structure Fs where
  /-- The nodes. -/
  nodes : ℕ → Node
  /-- How many nodes were made. -/
  nextNode : ℕ
  /-- `vfs_root`. -/
  vfsRoot : ℕ
  /-- `fd_table`. -/
  fdTable : ℕ → Option FileDescriptor
  /-- The file objects. -/
  objects : ℕ → FileObject
  /-- How many file objects were made. -/
  nextObject : ℕ
  /-- How many calls of `kmalloc` were made. -/
  allocs : ℕ

/-- What `kmalloc` returns at each of its calls. -/
abbrev Allocator := ℕ → Option (ℕ → UInt8)

namespace Fs

/-- What a node's pointer points at changes. -/
def setNode (s : Fs) (node : ℕ) (f : Node → Node) : Fs :=
  { s with nodes := Function.update s.nodes node (f (s.nodes node)) }

/-- What a file object's pointer points at changes. -/
def setObject (s : Fs) (obj : ℕ) (f : FileObject → FileObject) : Fs :=
  { s with objects := Function.update s.objects obj (f (s.objects obj)) }

/-- `fd_table[fd] = entry`. -/
def setEntry (s : Fs) (fd : ℕ) (entry : Option FileDescriptor) : Fs :=
  { s with fdTable := Function.update s.fdTable fd entry }

/-- `kmalloc` is called. -/
def tick (s : Fs) : Fs := { s with allocs := s.allocs + 1 }

end Fs

/-- The bytes of a string. -/
def bytesOf (text : String) : List UInt8 := text.toList.map fun c => c.toNat.toUInt8

/-- `'/'`. -/
def slash : UInt8 := 47

/-- `S_IFREG`. -/
def sIfreg : ℕ := 0o100000

/-- `S_IFDIR`. -/
def sIfdir : ℕ := 0o040000

/-- `O_CREAT`. -/
def oCreat : ℕ := 0o100

/-- `O_TRUNC`. -/
def oTrunc : ℕ := 0o1000

/-- `node->mode & S_IFDIR`. -/
def Node.isDir (n : Node) : Bool := n.mode &&& sIfdir != 0

/-! ### The tree -/

/-- `vfs_find_child`. -/
def vfsFindChild (s : Fs) (parent : ℕ) (name : List UInt8) : Option ℕ :=
  (s.nodes parent).children.find? fun c => (s.nodes c).name = name

/-- `vfs_add_child`. -/
def vfsAddChild (s : Fs) (parent child : ℕ) : Fs :=
  s.setNode parent fun n => { n with children := child :: n.children }

/-- `vfs_create_node`. -/
def vfsCreateNode (heap : Allocator) (s : Fs) (name : List UInt8) (mode : ℕ) : Fs × Option ℕ :=
  match heap s.allocs with
  | none => (s.tick, none)
  | some _ =>
    ({ s.tick with
        nodes := Function.update s.nodes s.nextNode ⟨name.take 255, mode, 0, [], none⟩
        nextNode := s.nextNode + 1 }, some s.nextNode)

/-- The loop of `fs_lookup`: from the root, one component after the other. -/
def resolve (s : Fs) (names : List (List UInt8)) : Option ℕ :=
  names.foldl (fun current name => current.bind fun n => vfsFindChild s n name) (some s.vfsRoot)

/-- `fs_lookup`. -/
def fsLookup (s : Fs) (path : List UInt8) : Option ℕ :=
  if path.head? = some slash then resolve s (tokens slash (path.take 511)) else none

/-- The first part of `fs_create`: the directory a path asks for a file in, and the name
of the file. -/
def creationTarget (s : Fs) (path : List UInt8) : Option (ℕ × List UInt8) :=
  if path.head? = some slash then
    let copy := path.take 511
    let dirPart := beforeLast slash copy
    -- the last slash must not be the first character
    if dirPart = [] then none
    else
      (fsLookup s dirPart).bind fun parent =>
        if (s.nodes parent).isDir then some (parent, lastField slash copy) else none
  else none

/-- `fs_create`. -/
def fsCreate (heap : Allocator) (s : Fs) (path : List UInt8) (mode : ℕ) : Fs × Option ℕ :=
  match creationTarget s path with
  | none => (s, none)
  | some (parent, filename) =>
    match vfsCreateNode heap s filename mode with
    | (s, none) => (s, none)
    | (s, some node) => (vfsAddChild s parent node, some node)

/-- `fs_unlink`: nothing is removed. -/
def fsUnlink (s : Fs) (path : List UInt8) : ℤ :=
  match fsLookup s path with
  | none => -1
  | some node => if (s.nodes node).isDir then -1 else 0

/-- `fs_mkdir`. -/
def fsMkdir (heap : Allocator) (s : Fs) (path : List UInt8) (mode : ℕ) : Fs × ℤ :=
  match fsCreate heap s path (sIfdir ||| (mode &&& 0o777)) with
  | (s, none) => (s, -1)
  | (s, some _) => (s, 0)

/-- `fs_rmdir`: nothing is removed. -/
def fsRmdir (s : Fs) (path : List UInt8) : ℤ :=
  match fsLookup s path with
  | none => -1
  | some node =>
    if (s.nodes node).isDir then if (s.nodes node).children ≠ [] then -1 else 0 else -1

/-! ### Files in memory -/

/-- `memcpy(data + offset, buf, count)`; the pointers are words. -/
def Buffer.store (b : Buffer) (offset count : ℕ) (buf : ℕ → UInt8) : Buffer :=
  { b with bytes := fun i =>
      if i < 2 ^ 64 ∧ wsub 64 i offset < count then buf (wsub 64 i offset) else b.bytes i }

/-- What `memfs_read` returns: how many bytes it copied, and which. -/
structure ReadResult where
  /-- The result. -/
  result : ℤ
  /-- How many bytes were copied. -/
  copied : ℕ
  /-- The bytes. -/
  bytes : ℕ → UInt8

/-- `memfs_read`. -/
def memfsRead (s : Fs) (node count offset : ℕ) : ReadResult :=
  match (s.nodes node).privateData with
  | none => ⟨-1, 0, fun _ => 0⟩
  | some data =>
    let dataSize := (s.nodes node).size
    if dataSize ≤ offset then ⟨0, 0, fun _ => 0⟩
    else
      let toRead := if dataSize < wrap 64 (offset + count) then wsub 64 dataSize offset else count
      ⟨toSigned 32 toRead, toRead, fun i => data.bytes (wrap 64 (offset + i))⟩

/-- The buffer of a file that grows: what it had is copied. -/
def growBuffer (n : Node) (newSize : ℕ) (memory : ℕ → UInt8) : Buffer :=
  ⟨newSize, match n.privateData with
    | none => memory
    | some data => fun i => if i < n.size then data.bytes i else memory i⟩

/-- `memfs_write`. -/
def memfsWrite (heap : Allocator) (s : Fs) (node : ℕ) (buf : ℕ → UInt8) (count offset : ℕ) : Fs × ℤ :=
  let newSize := wrap 64 (offset + count)
  if (s.nodes node).size < newSize then
    match heap s.allocs with
    | none => (s.tick, -1)
    | some memory =>
      (s.tick.setNode node fun n =>
        { n with privateData := some ((growBuffer n newSize memory).store offset count buf)
                 size := newSize }, toSigned 32 count)
  else
    (s.setNode node fun n => { n with privateData := n.privateData.map (·.store offset count buf) },
      toSigned 32 count)

/-! ### Descriptors -/

/-- `fd_get`. -/
def fdGet (s : Fs) (fd : ℤ) : Option FileDescriptor :=
  if 0 ≤ fd ∧ fd < 256 then s.fdTable fd.toNat else none

/-- The file object of a descriptor that is open. -/
def openObject (s : Fs) (fd : ℤ) : Option ℕ := (fdGet s fd).bind FileDescriptor.fileObject

/-- The first free descriptor. -/
def freeSlot (s : Fs) : Option ℕ := (List.range 256).find? fun i => (s.fdTable i).isNone

/-- `fd_alloc`. -/
def fdAlloc (heap : Allocator) (s : Fs) : Fs × ℤ :=
  match freeSlot s with
  | none => (s, -1)
  | some i =>
    match heap s.allocs with
    | none => (s.tick, -1)
    | some _ => (s.tick.setEntry i (some ⟨i, none, 0⟩), i)

/-- `fd_free`. -/
def fdFree (s : Fs) (fd : ℤ) : Fs := if 0 ≤ fd ∧ fd < 256 then s.setEntry fd.toNat none else s

/-- `fd_set_entry`. -/
def fdSetEntry (s : Fs) (fd : ℤ) (obj : ℕ) : Fs × ℤ :=
  match fdGet s fd with
  | none => (s, -1)
  | some entry => (s.setEntry fd.toNat (some { entry with fileObject := some obj, offset := 0 }), 0)

/-- `fd_entry->offset = v`. -/
def setEntryOffset (s : Fs) (fd : ℤ) (v : ℕ) : Fs :=
  s.setEntry fd.toNat ((s.fdTable fd.toNat).map fun entry => { entry with offset := v })

/-! ### System calls -/

/-- A file object for a node. -/
def makeObject (s : Fs) (node : ℕ) : Fs :=
  { s with nextObject := s.nextObject + 1 }.setObject s.nextObject fun _ =>
    { size := (s.nodes node).size, offset := 0, privateData := node }

/-- The last part of `syscall_open`: a descriptor for a file. -/
def openNode (heap : Allocator) (s : Fs) (node : ℕ) : Fs × ℤ :=
  match fdAlloc heap s with
  | (s, fd) =>
    if fd < 0 then (s, -1)
    else
      match heap s.allocs with
      | none => (fdFree s.tick fd, -1)
      | some _ =>
        match fdSetEntry (makeObject s.tick node) fd s.nextObject with
        | (s, code) => if code < 0 then (fdFree s fd, -1) else (s, fd)

/-- `kfree(node->private_data)`, if `O_TRUNC` is given and there is any. -/
def truncate (s : Fs) (node flags : ℕ) : Fs :=
  if flags &&& oTrunc ≠ 0 ∧ (s.nodes node).privateData.isSome then
    s.setNode node fun n => { n with privateData := none, size := 0 }
  else s

/-- `syscall_open`. -/
def syscallOpen (heap : Allocator) (s : Fs) (path : List UInt8) (flags mode : ℕ) : Fs × ℤ :=
  let found :=
    match fsLookup s path with
    | some node => (s, some node)
    | none =>
      if flags &&& oCreat ≠ 0 then fsCreate heap s path (sIfreg ||| (mode &&& 0o777)) else (s, none)
  match found with
  | (s, none) => (s, -1)
  | (s, some node) =>
    if (s.nodes node).isDir then (s, -1) else openNode heap (truncate s node flags) node

/-- `syscall_close`. -/
def syscallClose (s : Fs) (fd : ℤ) : Fs × ℤ :=
  match fdGet s fd with
  | none => (s, -1)
  | some _ => (fdFree s fd, 0)

/-- `syscall_read`: the file system and what was read. -/
def syscallRead (s : Fs) (fd : ℤ) (count : ℕ) : Fs × ReadResult :=
  match openObject s fd with
  | none => (s, ⟨-1, 0, fun _ => 0⟩)
  | some obj =>
    let r := memfsRead s (s.objects obj).privateData count (s.objects obj).offset
    if 0 < r.result then
      let offset := wrap 64 ((s.objects obj).offset + r.result.toNat)
      (setEntryOffset (s.setObject obj fun o => { o with offset := offset }) fd offset, r)
    else (s, r)

/-- `syscall_write`. -/
def syscallWrite (heap : Allocator) (s : Fs) (fd : ℤ) (buf : ℕ → UInt8) (count : ℕ) : Fs × ℤ :=
  match openObject s fd with
  | none => (s, -1)
  | some obj =>
    match memfsWrite heap s (s.objects obj).privateData buf count (s.objects obj).offset with
    | (s, result) =>
      if 0 < result then
        let offset := wrap 64 ((s.objects obj).offset + result.toNat)
        (setEntryOffset (s.setObject obj fun o => { o with offset := offset, size := offset }) fd
          offset, result)
      else (s, result)

/-- The offset that `syscall_lseek` is asked for. -/
def seekTarget (o : FileObject) (offset whence : ℤ) : Option ℕ :=
  if whence = 0 then some (ofInt 64 offset)
  else if whence = 1 then some (ofInt 64 (o.offset + offset))
  else if whence = 2 then some (ofInt 64 (o.size + offset))
  else none

/-- The loop of `syscall_lseek` that extends the file, for a number of turns: whether it
got to the new offset. -/
def extendFile (heap : Allocator) (obj newOffset : ℕ) : ℕ → Fs → Fs × Bool
  | 0, s => (s, true)
  | turns + 1, s =>
    if (s.objects obj).offset < newOffset then
      match memfsWrite heap s (s.objects obj).privateData (fun _ => 0) 1 (s.objects obj).offset with
      | (s, code) =>
        if code ≠ 1 then (s, false)
        else
          extendFile heap obj newOffset turns
            (s.setObject obj fun o => { o with offset := wrap 64 (o.offset + 1) })
    else (s, true)

/-- `syscall_lseek`. -/
def syscallLseek (heap : Allocator) (s : Fs) (fd : ℤ) (offset whence : ℤ) : Fs × ℤ :=
  match openObject s fd with
  | none => (s, -1)
  | some obj =>
    match seekTarget (s.objects obj) offset whence with
    | none => (s, -1)
    | some newOffset =>
      -- one turn of the loop for each byte up to the new offset
      match (if (s.objects obj).size < newOffset then
          extendFile heap obj newOffset (newOffset - (s.objects obj).offset) s else (s, true)) with
      | (s, false) => (s, -1)
      | (s, true) =>
        (setEntryOffset (s.setObject obj fun o => { o with offset := newOffset }) fd newOffset,
          toSigned 64 newOffset)

/-! ### Initialisation -/

/-- `vfs_create_node` for a file with contents, as `fs_init` makes it: the contents are
copied into a buffer of the size given, and the file is put into a directory. -/
def initFile (heap : Allocator) (s : Fs) (parent : ℕ) (name : String) (capacity : ℕ)
    (content : String) : Option Fs :=
  match vfsCreateNode heap s (bytesOf name) (sIfreg ||| 0o644) with
  | (s, none) => some s
  | (s, some node) =>
    -- `strcpy` to `NULL` does not return
    (heap s.allocs).map fun memory =>
      let text := bytesOf content
      vfsAddChild (s.tick.setNode node fun n =>
        { n with
          privateData := some ⟨capacity, fun i => (text ++ [0]).getD i (memory i)⟩
          size := text.length }) parent node

/-- The file system before `fs_init`. -/
def fsEmpty : Fs := ⟨fun _ => default, 0, 0, fun _ => none, fun _ => default, 0, 0⟩

/-- `fs_init`; it panics if there is no memory for the two roots. -/
def fsInit (heap : Allocator) : Option Fs :=
  match vfsCreateNode heap fsEmpty (bytesOf "/") (sIfdir ||| 0o755) with
  | (_, none) => none
  | (s, some root) =>
    match vfsCreateNode heap { s with vfsRoot := root } (bytesOf "memfs") (sIfdir ||| 0o755) with
    | (_, none) => none
    | (s, some memfsRoot) =>
      let s := vfsAddChild s root memfsRoot
      (initFile heap s memfsRoot "hello.txt" 32 "Hello, World!\nThis is a test file.\n").bind fun s =>
        match vfsCreateNode heap s (bytesOf "test") (sIfdir ||| 0o755) with
        | (s, none) => some s
        | (s, some testDir) =>
          initFile heap (vfsAddChild s memfsRoot testDir) testDir "nested.txt" 16 "Nested file\n"

end PrismaticOS.Kernel
