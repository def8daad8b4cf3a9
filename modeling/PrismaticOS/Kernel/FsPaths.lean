import Mathlib.Data.List.Find
import PrismaticOS.Kernel.FsTree
import PrismaticOS.Libc.Strings

/-!
# Paths

`fs_lookup` of `kernel/fs.c` as it goes through memory: the path is copied into a buffer, `strtok`
takes the copy apart, and each token is looked up among the children of the node before.

## What is proved

* `fsLookupIn_eq` — that is the search along the components of the path, cut off at 511 bytes.
* `lookup_follows` — a path of fewer than 512 bytes is followed from the root, one component after
  the other, and the result is `NULL` exactly if some component has no such child.
-/

namespace PrismaticOS.Kernel

open PrismaticOS.Library PrismaticOS.Libc

/-! ### The search in memory -/

/-- `strncpy(path_copy, path, 511)`, and a zero at the end. -/
def pathCopy (m : Mem) (buf : ℕ) (path : List UInt8) : Mem := fun x =>
  if buf ≤ x ∧ x < buf + 512 then (path.take 511).getD (x - buf) 0 else m x

/-- `vfs_find_child`; the name is in memory. -/
def vfsFindChildAt (s : Fs) (m : Mem) (parent name : ℕ) : Option ℕ :=
  (s.nodes parent).children.find? fun c => strcmp m (s.nodes c).name name = 0

/-- The loop of `fs_lookup`. -/
def lookupLoop (s : Fs) : ℕ → Tokenized → Option ℕ → Option (Option ℕ)
  | 0, _, _ => none
  | steps + 1, t, current =>
    match current with
    | none => some none
    | some node =>
      if t.token = 0 then some (some node)
      else
        -- an empty token is passed over
        let current :=
          if strcmp t.mem [] t.token = 0 then some node else vfsFindChildAt s t.mem node t.token
        (strtok t.mem t.saveptr 0 [slash]).bind fun t => lookupLoop s steps t current

/-- `fs_lookup`: `path_copy` is at `buf`, and `last` is what `strtok` has kept before. -/
def fsLookupIn (s : Fs) (m : Mem) (buf last : ℕ) (path : List UInt8) : Option (Option ℕ) :=
  if path.head? = some slash then
    (strtok (pathCopy m buf path) last buf [slash]).bind fun t =>
      lookupLoop s addresses t (some s.vfsRoot)
  else some none

/-- From `node`, the names lead to `target`. -/
def Follows (s : Fs) : ℕ → List (List UInt8) → ℕ → Prop
  | node, [], target => node = target
  | node, name :: names, target =>
    ∃ child, vfsFindChild s node name = some child ∧ Follows s child names target

/-- The names of the nodes are strings, without their final zeros. -/
def NamesOk (s : Fs) : Prop := ∀ node, 0 ∉ (s.nodes node).name

variable {s : Fs} {m : Mem} {t : Tokenized} {names : List (List UInt8)}
  {path name : List UInt8} {node target : ℕ}

/-! ### One turn after the other -/

theorem vfsFindChildAt_eq {p : ℕ} (hok : NamesOk s) (h : IsString m p name) :
    vfsFindChildAt s m node p = vfsFindChild s node name := by
  unfold vfsFindChildAt vfsFindChild
  refine List.find?_congr fun c _ => ?_
  rw [decide_eq_decide]
  exact strcmp_eq_zero_iff h (hok c)

/-- **The loop** walks along the tokens that are ahead. -/
theorem lookupLoop_eq (hok : NamesOk s) {steps : ℕ} (h : Ahead slash t names)
    (hsteps : names.length < steps) :
    lookupLoop s steps t (some node) = some (walkFrom s node names) := by
  induction names generalizing t node steps with
  | nil =>
    obtain ⟨n, rfl⟩ := Nat.exists_eq_succ_of_ne_zero (Nat.ne_of_gt hsteps)
    exact if_pos h
  | cons name names ih =>
    obtain ⟨n, rfl⟩ := Nat.exists_eq_succ_of_ne_zero (Nat.ne_of_gt (Nat.zero_lt_of_lt hsteps))
    obtain ⟨htoken, hstring, hne, hleft⟩ := h
    obtain ⟨t', hnext, hahead⟩ := strtok_ahead hleft
    have hempty : strcmp t.mem [] t.token ≠ 0 := by
      rw [ne_eq, strcmp_eq_zero_iff hstring List.not_mem_nil]
      exact Ne.symm hne
    have hlt : names.length < n := Nat.lt_of_succ_lt_succ hsteps
    rw [lookupLoop, walkFrom_cons]
    simp only [if_neg htoken, if_neg hempty, hnext, Option.bind_some, vfsFindChildAt_eq hok hstring]
    cases vfsFindChild s node name with
    | some child => exact ih hahead hlt
    | none =>
      obtain ⟨k, rfl⟩ := Nat.exists_eq_succ_of_ne_zero (Nat.ne_of_gt (Nat.zero_lt_of_lt hlt))
      rfl

/-- What is copied. -/
theorem pathCopy_isString (m : Mem) (buf : ℕ) (hpath : 0 ∉ path) :
    IsString (pathCopy m buf path) buf (path.take 511) := by
  refine .of_getD (fun i hi => ?_) fun h0 => hpath (List.mem_of_mem_take h0)
  rw [List.length_take] at hi
  rw [pathCopy, if_pos (by omega), Nat.add_sub_cancel_left]

/-- **`fs_lookup`** searches along the components of the path that was copied. -/
theorem fsLookupIn_eq (hok : NamesOk s) (m : Mem) {buf : ℕ} (last : ℕ) (hbuf : buf ≠ 0)
    (hpath : 0 ∉ path) : fsLookupIn s m buf last path = some (fsLookup s path) := by
  unfold fsLookupIn fsLookup
  by_cases hhead : path.head? = some slash
  · have hleft : Left slash (pathCopy m buf path) buf (tokens slash (path.take 511)) := by
      refine .inr ⟨path.take 511, hbuf, pathCopy_isString m buf hpath, ?_, rfl⟩
      rw [List.length_take, addresses]
      omega
    obtain ⟨t, ht, hahead⟩ := strtok_ahead hleft
    rw [if_pos hhead, if_pos hhead, strtok_start _ _ hbuf, ht, Option.bind_some,
      lookupLoop_eq hok hahead]
    · rfl
    · have hle := length_tokens_le slash (path.take 511)
      rw [List.length_take] at hle
      rw [addresses]
      omega
  · rw [if_neg hhead, if_neg hhead]

/-! ### What the path leads to -/

theorem walkFrom_eq_some_iff :
    walkFrom s node names = some target ↔ Follows s node names target := by
  induction names generalizing node with
  | nil => exact Option.some_inj
  | cons name names ih =>
    rw [walkFrom_cons, Option.bind_eq_some_iff]
    simp only [ih, Follows]

/-- There is no way exactly if it ends at some component. -/
theorem walkFrom_eq_none_iff : walkFrom s node names = none ↔
    ∃ before name after last, names = before ++ name :: after ∧ Follows s node before last ∧
      vfsFindChild s last name = none := by
  induction names generalizing node with
  | nil => simp [walkFrom]
  | cons name names ih =>
    rw [walkFrom_cons]
    cases hchild : vfsFindChild s node name with
    | none =>
      exact ⟨fun _ => ⟨[], name, names, node, rfl, rfl, hchild⟩, fun _ => rfl⟩
    | some child =>
      rw [Option.bind_some, ih]
      constructor
      · rintro ⟨before, bad, after, last, rfl, hfollows, hbad⟩
        exact ⟨name :: before, bad, after, last, rfl, ⟨child, hchild, hfollows⟩, hbad⟩
      · rintro ⟨before, bad, after, last, hnames, hfollows, hbad⟩
        cases before with
        | nil =>
          obtain ⟨rfl, rfl⟩ := List.cons_eq_cons.mp hnames
          obtain rfl : node = last := hfollows
          rw [hchild] at hbad
          cases hbad
        | cons first before =>
          obtain ⟨rfl, rfl⟩ := List.cons_eq_cons.mp hnames
          obtain ⟨child', hchild', hfollows⟩ := hfollows
          obtain rfl : child = child' := Option.some.inj (hchild.symm.trans hchild')
          exact ⟨before, bad, after, last, rfl, hfollows, hbad⟩

/-- **Path resolution**: a path of fewer than 512 bytes is followed from the root, and there is no
result exactly if some component has no such child. -/
theorem lookup_follows (s : Fs) (m : Mem) (buf last : ℕ) (path : List UInt8) (hok : NamesOk s)
    (hbuf : buf ≠ 0) (hpath : 0 ∉ path) (hhead : path.head? = some slash)
    (hlen : path.length < 512) :
    ∃ result, fsLookupIn s m buf last path = some result ∧
      (∀ node, result = some node ↔ Follows s s.vfsRoot (tokens slash path) node) ∧
        (result = none ↔ ∃ before name after node, tokens slash path = before ++ name :: after ∧
          Follows s s.vfsRoot before node ∧ vfsFindChild s node name = none) := by
  have hlookup : fsLookup s path = walkFrom s s.vfsRoot (tokens slash path) := by
    rw [fsLookup_of_head hhead, List.take_of_length_le (by omega)]
  refine ⟨_, fsLookupIn_eq hok m last hbuf hpath, fun node => ?_, ?_⟩
  · rw [hlookup]
    exact walkFrom_eq_some_iff
  · rw [hlookup]
    exact walkFrom_eq_none_iff

/-- A root with one file, `a`. -/
def oneFile : Fs :=
  vfsAddChild { fsEmpty.setNode 1 fun n => { n with name := bytesOf "a", mode := sIfreg } with
    nextNode := 2 } 0 1

theorem oneFile_namesOk : NamesOk oneFile := by
  intro node
  by_cases h₀ : node = 0
  · subst h₀
    decide
  · by_cases h₁ : node = 1
    · subst h₁
      decide
    · have hname : (oneFile.nodes node).name = [] := by
        simp [oneFile, vfsAddChild, Fs.setNode, fsEmpty, h₀, h₁]
        rfl
      rw [hname]
      exact List.not_mem_nil

/-- Slashes in front of the name and behind it. -/
theorem lookup_follows_a : ∃ result, fsLookupIn oneFile (fun _ => 1) 4096 0 (bytesOf "//a/") =
    some result ∧ (∀ node, result = some node ↔
      Follows oneFile 0 (tokens slash (bytesOf "//a/")) node) ∧
    (result = none ↔ ∃ before name after node,
      tokens slash (bytesOf "//a/") = before ++ name :: after ∧
        Follows oneFile 0 before node ∧ vfsFindChild oneFile node name = none) :=
  lookup_follows oneFile (fun _ => 1) 4096 0 (bytesOf "//a/") oneFile_namesOk (by decide)
    (by decide) (by decide) (by decide)

end PrismaticOS.Kernel
