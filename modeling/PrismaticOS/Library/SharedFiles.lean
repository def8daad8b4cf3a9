import Mathlib.Data.List.Basic
import Mathlib.Logic.Function.Basic
import Mathlib.Order.Lattice
import Mathlib.Order.Nat

/-!
# Shared files

Files are sequences of bytes, and a descriptor is a place in one of them. Descriptors of one file
share what is in it, but not the places. A call reads from the place of a descriptor, writes there,
or moves it.

## What is proved

* `splice_splice` — writes behind one another are one write.
* `steps_writes` — a number of writes with one descriptor.
* `read_after_writes` — a second descriptor reads what was written.
-/

namespace PrismaticOS.Library

variable {N D α : Type*}

/-- The sequence with `data` from `pos` on, over what was there. -/
def splice (l : List α) (pos : ℕ) (data : List α) : List α :=
  l.take pos ++ data ++ l.drop (pos + data.length)

/-- What the files `N` hold, and which file a descriptor `D` is open on, and where. -/
@[ext] structure Files (N D α : Type*) where
  /-- The bytes of a file. -/
  contents : N → List α
  /-- The file of a descriptor that is open, and its place. -/
  cursor : D → Option (N × ℕ)

/-- What is done to files. -/
inductive FileOp (N D α : Type*) where
  /-- Nothing. -/
  | skip
  /-- A file is emptied. -/
  | empty (n : N)
  /-- A descriptor is opened at the beginning of a file, which may be emptied. -/
  | open (d : D) (n : N) (emptied : Bool)
  /-- A descriptor is closed. -/
  | close (d : D)
  /-- At most `count` bytes are read. -/
  | read (d : D) (count : ℕ)
  /-- Bytes are written. -/
  | write (d : D) (data : List α)
  /-- A descriptor is moved. -/
  | seek (d : D) (pos : ℕ)

variable [DecidableEq N] [DecidableEq D]

/-- A file is emptied. -/
def Files.empty (f : Files N D α) (n : N) : Files N D α :=
  { f with contents := Function.update f.contents n [] }

/-- Bytes of a file are replaced, or put behind the others. -/
def Files.put (f : Files N D α) (n : N) (pos : ℕ) (data : List α) : Files N D α :=
  { f with contents := Function.update f.contents n (splice (f.contents n) pos data) }

/-- A descriptor is set to a place, or closed. -/
def Files.move (f : Files N D α) (d : D) (place : Option (N × ℕ)) : Files N D α :=
  { f with cursor := Function.update f.cursor d place }

/-- What is done to the files, and what is read. A descriptor that is not open does nothing. -/
def Files.step (f : Files N D α) : FileOp N D α → Files N D α × List α
  | .skip => (f, [])
  | .empty n => (f.empty n, [])
  | .open d n emptied => ((if emptied then f.empty n else f).move d (some (n, 0)), [])
  | .close d => (f.move d none, [])
  | .read d count =>
    match f.cursor d with
    | none => (f, [])
    | some (n, pos) =>
      let got := ((f.contents n).drop pos).take count
      (f.move d (some (n, pos + got.length)), got)
  | .write d data =>
    match f.cursor d with
    | none => (f, [])
    | some (n, pos) => ((f.put n pos data).move d (some (n, pos + data.length)), [])
  | .seek d pos =>
    match f.cursor d with
    | none => (f, [])
    | some (n, _) => (f.move d (some (n, pos)), [])

/-- One after another, and what each of them reads. -/
def Files.steps (f : Files N D α) : List (FileOp N D α) → Files N D α × List (List α)
  | [] => (f, [])
  | op :: ops => (((f.step op).1.steps ops).1, (f.step op).2 :: ((f.step op).1.steps ops).2)

/-! ### Splicing -/

section
omit [DecidableEq N] [DecidableEq D]
variable {l a b : List α} {pos : ℕ}

@[simp] theorem splice_nil : splice l pos [] = l := by simp [splice]

theorem length_splice (h : pos ≤ l.length) :
    (splice l pos a).length = max l.length (pos + a.length) := by
  simp only [splice, List.length_append, List.length_take, List.length_drop]
  omega

/-- The bytes of a spliced sequence. -/
theorem getElem?_splice (h : pos ≤ l.length) (i : ℕ) :
    (splice l pos a)[i]? =
      if i < pos then l[i]? else if i < pos + a.length then a[i - pos]? else l[i]? := by
  have htake : (l.take pos).length = pos := by rw [List.length_take, Nat.min_eq_left h]
  rw [splice, List.append_assoc]
  by_cases h1 : i < pos
  · rw [if_pos h1, List.getElem?_append_left (by omega), List.getElem?_take_of_lt h1]
  rw [if_neg h1, List.getElem?_append_right (by omega), htake]
  by_cases h2 : i < pos + a.length
  · rw [if_pos h2, List.getElem?_append_left (by omega)]
  · rw [if_neg h2, List.getElem?_append_right (by omega), List.getElem?_drop]
    congr 1
    omega

/-- **Writes behind one another** are one write. -/
theorem splice_splice (h : pos ≤ l.length) :
    splice (splice l pos a) (pos + a.length) b = splice l pos (a ++ b) := by
  have hlen := length_splice (a := a) h
  apply List.ext_getElem?
  intro i
  rw [getElem?_splice (by omega), getElem?_splice h, getElem?_splice h, List.length_append]
  by_cases h1 : i < pos
  · simp only [h1, if_true, if_pos (show i < pos + a.length by omega)]
  by_cases h2 : i < pos + a.length
  · rw [if_pos h2, if_neg h1, if_pos h2, if_neg h1, if_pos (by omega),
      List.getElem?_append_left (by omega)]
  rw [if_neg h2, if_neg h1, if_neg h1, if_neg h2, Nat.add_assoc]
  by_cases h3 : i < pos + (a.length + b.length)
  · rw [if_pos h3, if_pos h3, List.getElem?_append_right (by omega), Nat.sub_sub]
  · rw [if_neg h3, if_neg h3]

/-- What was written is read. -/
theorem take_drop_splice (h : pos ≤ l.length) :
    ((splice l pos a).drop pos).take a.length = a := by
  have htake : (l.take pos).length = pos := by rw [List.length_take, Nat.min_eq_left h]
  rw [splice, List.append_assoc, List.drop_left' htake, List.take_left]

end

/-! ### Writing and reading -/

section
variable {f : Files N D α} {d d' : D} {n : N} {pos : ℕ}

/-- A descriptor that is open reads. -/
theorem Files.step_read (h : f.cursor d = some (n, pos)) (count : ℕ) :
    f.step (.read d count) =
      (f.move d (some (n, pos + (((f.contents n).drop pos).take count).length)),
        ((f.contents n).drop pos).take count) := by
  rw [Files.step, h]

/-- It writes. -/
theorem Files.step_write (h : f.cursor d = some (n, pos)) (data : List α) :
    f.step (.write d data) = ((f.put n pos data).move d (some (n, pos + data.length)), []) := by
  rw [Files.step, h]

/-- It is moved. -/
theorem Files.step_seek (h : f.cursor d = some (n, pos)) (pos' : ℕ) :
    f.step (.seek d pos') = (f.move d (some (n, pos')), []) := by
  rw [Files.step, h]

/-- Only reads read. -/
theorem Files.step_nothing {op : FileOp N D α} (h : ∀ d count, op ≠ .read d count) :
    (f.step op).2 = [] := by
  cases op with
  | skip => rfl
  | empty n => rfl
  | «open» d n emptied => rfl
  | close d => rfl
  | read d count => exact absurd rfl (h d count)
  | write d data =>
    rw [Files.step]
    cases f.cursor d <;> rfl
  | seek d pos =>
    rw [Files.step]
    cases f.cursor d <;> rfl

/-- A step opens descriptors on the files it is told to. -/
theorem Files.cursor_step {P : N → Prop} (hf : ∀ d n pos, f.cursor d = some (n, pos) → P n)
    (op : FileOp N D α) (hopen : ∀ d n emptied, op = .open d n emptied → P n) :
    ∀ d n pos, (f.step op).1.cursor d = some (n, pos) → P n := by
  -- one descriptor is moved, to a file with the property
  have hmove : ∀ (g : Files N D α) d place, g.cursor = f.cursor →
      (∀ n pos, place = some (n, pos) → P n) →
        ∀ d' n pos, (g.move d place).cursor d' = some (n, pos) → P n := by
    intro g d place hg hplace d' n pos h
    change Function.update g.cursor d place d' = _ at h
    rw [hg] at h
    by_cases hd : d' = d
    · rw [hd, Function.update_self] at h
      exact hplace n pos h
    · rw [Function.update_of_ne hd] at h
      exact hf d' n pos h
  cases op with
  | skip => exact hf
  | empty n => exact hf
  | «open» d n emptied =>
    refine hmove _ d _ (by cases emptied <;> rfl) fun n' pos h => ?_
    rw [← (Prod.mk.inj (Option.some.inj h)).1]
    exact hopen d n emptied rfl
  | close d => exact hmove f d none rfl (by simp)
  | read d count =>
    cases hcursor : f.cursor d with
    | none => simpa only [Files.step, hcursor] using hf
    | some place =>
      rw [Files.step_read hcursor]
      refine hmove f d _ rfl fun n' pos h => ?_
      exact hf d n' place.2 (by rw [hcursor, ← (Prod.mk.inj (Option.some.inj h)).1])
  | write d data =>
    cases hcursor : f.cursor d with
    | none => simpa only [Files.step, hcursor] using hf
    | some place =>
      rw [Files.step_write hcursor]
      refine hmove (f.put _ _ _) d _ rfl fun n' pos h => ?_
      exact hf d n' place.2 (by rw [hcursor, ← (Prod.mk.inj (Option.some.inj h)).1])
  | seek d pos =>
    cases hcursor : f.cursor d with
    | none => simpa only [Files.step, hcursor] using hf
    | some place =>
      rw [Files.step_seek hcursor]
      refine hmove f d _ rfl fun n' pos h => ?_
      exact hf d n' place.2 (by rw [hcursor, ← (Prod.mk.inj (Option.some.inj h)).1])

/-- Files are small if they are and if the writes are. -/
theorem Files.length_step {k : ℕ} (hk : 0 < k) (hf : ∀ n, (f.contents n).length < k)
    (op : FileOp N D α) (hwrite : ∀ d data n pos, op = .write d data → f.cursor d = some (n, pos) →
      pos ≤ (f.contents n).length ∧ pos + data.length < k) (n : N) :
    ((f.step op).1.contents n).length < k := by
  have hempty : ∀ n', ((f.empty n').contents n).length < k := by
    intro n'
    show (Function.update f.contents n' [] n).length < k
    by_cases hn : n = n'
    · rw [hn, Function.update_self]
      exact hk
    · rw [Function.update_of_ne hn]
      exact hf n
  cases op with
  | skip => exact hf n
  | empty n' => exact hempty n'
  | «open» d n' emptied =>
    cases emptied with
    | false => exact hf n
    | true => exact hempty n'
  | close d => exact hf n
  | read d count =>
    cases hcursor : f.cursor d with
    | none => simpa only [Files.step, hcursor] using hf n
    | some place =>
      rw [Files.step_read hcursor]
      exact hf n
  | write d data =>
    cases hcursor : f.cursor d with
    | none => simpa only [Files.step, hcursor] using hf n
    | some place =>
      obtain ⟨hle, hlt⟩ := hwrite d data place.1 place.2 rfl hcursor
      rw [Files.step_write hcursor]
      show (Function.update f.contents place.1 _ n).length < k
      by_cases hn : n = place.1
      · rw [hn, Function.update_self, length_splice hle]
        exact max_lt (hf _) hlt
      · rw [Function.update_of_ne hn]
        exact hf n
  | seek d pos =>
    cases hcursor : f.cursor d with
    | none => simpa only [Files.step, hcursor] using hf n
    | some place =>
      rw [Files.step_seek hcursor]
      exact hf n

/-- **A number of writes with one descriptor** is one write of all the bytes. -/
theorem Files.steps_writes (hcursor : f.cursor d = some (n, pos)) (hpos : pos ≤ (f.contents n).length)
    (pieces : List (List α)) :
    (f.steps (pieces.map (.write d))).1 =
      (f.put n pos pieces.flatten).move d (some (n, pos + pieces.flatten.length)) := by
  induction pieces generalizing f pos with
  | nil =>
    ext m : 2
    · simp [Files.steps, Files.move, Files.put]
    · simp [Files.steps, Files.move, Files.put, ← hcursor]
  | cons data pieces ih =>
    obtain ⟨f', hf'⟩ : ∃ f', (f.step (.write d data)).1 = f' := ⟨_, rfl⟩
    have hstep : f' = (f.put n pos data).move d (some (n, pos + data.length)) := by
      rw [← hf', Files.step_write hcursor]
    have hnext : f'.cursor d = some (n, pos + data.length) := by
      rw [hstep]
      exact Function.update_self ..
    have hcontents : f'.contents n = splice (f.contents n) pos data := by
      rw [hstep]
      exact Function.update_self ..
    have hlen : pos + data.length ≤ (f'.contents n).length := by
      rw [hcontents, length_splice hpos]
      exact le_max_right ..
    rw [List.map_cons, Files.steps, hf', ih hnext hlen, Files.put, hcontents, splice_splice hpos,
      List.flatten_cons, List.length_append, ← Nat.add_assoc, hstep]
    simp only [Files.move, Files.put, Function.update_idem]

/-- Another descriptor stays where it is. -/
theorem Files.steps_writes_cursor (hne : d ≠ d') (hcursor : f.cursor d = some (n, pos))
    (hpos : pos ≤ (f.contents n).length) (pieces : List (List α)) :
    (f.steps (pieces.map (.write d))).1.cursor d' = f.cursor d' := by
  rw [Files.steps_writes hcursor hpos]
  exact Function.update_of_ne hne.symm ..

/-- **A second descriptor reads what was written**, wherever it stands in the file. -/
theorem Files.read_after_writes (hne : d ≠ d') (hcursor : f.cursor d = some (n, pos))
    (hpos : pos ≤ (f.contents n).length) {pos' : ℕ} (hcursor' : f.cursor d' = some (n, pos'))
    (pieces : List (List α)) (count : ℕ) :
    (((f.steps (pieces.map (.write d))).1).step (.read d' count)).2 =
      ((splice (f.contents n) pos pieces.flatten).drop pos').take count := by
  have hother := (Files.steps_writes_cursor hne hcursor hpos pieces).trans hcursor'
  have hcontents : (f.steps (pieces.map (.write d))).1.contents n =
      splice (f.contents n) pos pieces.flatten := by
    rw [Files.steps_writes hcursor hpos]
    exact Function.update_self ..
  rw [Files.step_read hother, hcontents]

end

end PrismaticOS.Library
