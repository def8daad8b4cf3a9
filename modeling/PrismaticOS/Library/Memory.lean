import Mathlib.Data.Set.Function
import Mathlib.Order.Interval.Set.Basic
import Mathlib.Tactic.Ring

/-!
# Byte memory

A memory with a byte at every address, and little-endian numbers of any width in
it. Programs that keep structures of several fields in raw memory read and write
the fields through `loadLE` and `storeLE`; what they need to know is that a store
is read back (`loadLE_storeLE`) and that it changes nothing outside its own bytes
(`storeLE_eqOn`, `loadLE_congr`).

Frames are stated with `Set.EqOn`: two memories agree on a set of addresses.
-/

namespace PrismaticOS.Library

/-- A memory: a byte at every address. -/
abbrev Mem := ℕ → UInt8

/-- The little-endian number kept in the `n` bytes from address `a`. -/
def loadLE (m : Mem) (a : ℕ) : ℕ → ℕ
  | 0 => 0
  | n + 1 => (m a).toNat + 256 * loadLE m (a + 1) n

/-- Keep the low `n` bytes of `v`, little-endian, in the `n` bytes from address `a`. -/
def storeLE (m : Mem) (a n v : ℕ) : Mem := fun x =>
  if a ≤ x ∧ x < a + n then UInt8.ofNat (v / 256 ^ (x - a)) else m x

/-- The ideal move: the `n` bytes that were at `src` are at `dst`. -/
def copyBytes (m : Mem) (dst src n : ℕ) : Mem := fun x =>
  if dst ≤ x ∧ x < dst + n then m (src + (x - dst)) else m x

/-- The ideal fill: the `n` bytes from `dst` on are `b`. -/
def fillBytes (m : Mem) (dst n : ℕ) (b : UInt8) : Mem := fun x =>
  if dst ≤ x ∧ x < dst + n then b else m x

/-- The bytes are in memory from address `a` on. -/
def storeBytes (m : Mem) (a : ℕ) (bytes : List UInt8) : Mem := fun x =>
  if a ≤ x then bytes.getD (x - a) (m x) else m x

/-- The `n` bytes from address `a`. -/
def loadBytes (m : Mem) (a n : ℕ) : List UInt8 := (List.range n).map fun i => m (a + i)

/-- A load depends on the bytes it reads only. -/
theorem loadLE_congr {m m' : Mem} {a n : ℕ} (h : Set.EqOn m m' (Set.Ico a (a + n))) :
    loadLE m a n = loadLE m' a n := by
  induction n generalizing a with
  | zero => rfl
  | succ n ih =>
    have hhead : m a = m' a := h (Set.mem_Ico.mpr ⟨le_rfl, by omega⟩)
    have htail : Set.EqOn m m' (Set.Ico (a + 1) (a + 1 + n)) :=
      h.mono (Set.Ico_subset_Ico (by omega) (by omega))
    simp only [loadLE, hhead, ih htail]

/-- A store changes its own bytes only. -/
theorem storeLE_eqOn (m : Mem) (a n v : ℕ) : Set.EqOn (storeLE m a n v) m (Set.Ico a (a + n))ᶜ := by
  intro x hx
  exact if_neg hx

/-- A copy changes the bytes of its destination only. -/
theorem copyBytes_eqOn (m : Mem) (dst src n : ℕ) :
    Set.EqOn (copyBytes m dst src n) m (Set.Ico dst (dst + n))ᶜ := by
  intro x hx
  exact if_neg hx

/-- The bytes from the `i`-th of a stored number on are the number without its low `i` bytes. -/
theorem loadLE_storeLE_drop (m : Mem) (a n v : ℕ) {i k : ℕ} (h : i + k ≤ n) :
    loadLE (storeLE m a n v) (a + i) k = v / 256 ^ i % 256 ^ k := by
  induction k generalizing i with
  | zero => simp [loadLE, Nat.mod_one]
  | succ k ih =>
    have hbyte : (storeLE m a n v (a + i)).toNat = v / 256 ^ i % 256 := by
      simp only [storeLE]
      rw [if_pos ⟨by omega, by omega⟩, Nat.add_sub_cancel_left, UInt8.toNat_ofNat']
    have hrest := ih (i := i + 1) (by omega)
    rw [loadLE, hbyte, Nat.add_assoc, hrest, Nat.pow_succ 256 i, ← Nat.div_div_eq_div_mul,
      Nat.pow_succ', Nat.mod_mul]

/-- What is stored is read back, up to the width of the store. -/
theorem loadLE_storeLE (m : Mem) (a n v : ℕ) : loadLE (storeLE m a n v) a n = v % 256 ^ n := by
  have h := loadLE_storeLE_drop m a n v (i := 0) (k := n) (by omega)
  simpa using h

/-- A store is not seen by a load of other bytes. -/
theorem loadLE_storeLE_of_disjoint (m : Mem) {a n b k : ℕ} (v : ℕ) (h : b + k ≤ a ∨ a + n ≤ b) :
    loadLE (storeLE m a n v) b k = loadLE m b k := by
  have hsub : Set.Ico b (b + k) ⊆ (Set.Ico a (a + n))ᶜ := by
    intro x hx hx'
    rw [Set.mem_Ico] at hx hx'
    omega
  exact loadLE_congr ((storeLE_eqOn m a n v).mono hsub)

/-- A number of `n` bytes is below `256 ^ n`. -/
theorem loadLE_lt (m : Mem) (a n : ℕ) : loadLE m a n < 256 ^ n := by
  induction n generalizing a with
  | zero => simp [loadLE]
  | succ n ih =>
    have hb := (m a).toNat_lt
    have hr := ih (a + 1)
    rw [loadLE, Nat.pow_succ']
    omega

/-- A number is its low bytes and the others. -/
theorem loadLE_add (m : Mem) (a i k : ℕ) :
    loadLE m a (i + k) = loadLE m a i + 256 ^ i * loadLE m (a + i) k := by
  induction i generalizing a with
  | zero => simp [loadLE]
  | succ i ih =>
    rw [Nat.add_right_comm, loadLE, ih, loadLE, Nat.pow_succ',
      show a + 1 + i = a + (i + 1) by omega]
    ring

/-- Some bytes of a number. -/
theorem loadLE_part (m : Mem) (a : ℕ) {n i k : ℕ} (h : i + k ≤ n) :
    loadLE m (a + i) k = loadLE m a n / 256 ^ i % 256 ^ k := by
  obtain ⟨j, rfl⟩ := Nat.exists_eq_add_of_le h
  have hlow := loadLE_lt m a i
  have hmid := loadLE_lt m (a + i) k
  have hpos : 0 < 256 ^ i := Nat.pow_pos (by decide)
  rw [Nat.add_assoc, loadLE_add m a i, loadLE_add m (a + i) k, Nat.add_mul_div_left _ _ hpos,
    Nat.div_eq_of_lt hlow, Nat.zero_add, Nat.add_mul_mod_self_left, Nat.mod_eq_of_lt hmid]

/-- Two numbers are the same exactly if their bytes are. -/
theorem loadLE_eq_iff (m : Mem) {p q n : ℕ} :
    loadLE m p n = loadLE m q n ↔ ∀ i < n, m (p + i) = m (q + i) := by
  constructor
  · intro h i hi
    have hbyte (a : ℕ) : (m (a + i)).toNat = loadLE m a n / 256 ^ i % 256 := by
      have hpart := loadLE_part m a (n := n) (i := i) (k := 1) (by omega)
      rwa [loadLE, loadLE, Nat.mul_zero, Nat.add_zero, Nat.pow_one] at hpart
    rw [← UInt8.toNat_inj, hbyte p, hbyte q, h]
  · intro h
    induction n generalizing p q with
    | zero => rfl
    | succ n ih =>
      have hrest : ∀ i < n, m (p + 1 + i) = m (q + 1 + i) := fun i hi => by
        rw [Nat.add_right_comm p, Nat.add_right_comm q]
        exact h (i + 1) (Nat.succ_lt_succ hi)
      have hfirst : m p = m q := h 0 (Nat.succ_pos n)
      rw [loadLE, loadLE, hfirst, ih hrest]

/-! ### Moves -/

theorem copyBytes_zero (m : Mem) (dst src : ℕ) : copyBytes m dst src 0 = m := by
  funext x
  exact if_neg (by omega)

/-- A byte is copied. -/
theorem copyBytes_one (m : Mem) (dst src : ℕ) :
    copyBytes m dst src 1 = Function.update m dst (m src) := by
  funext x
  rw [Function.update_apply]
  simp only [copyBytes]
  by_cases hx : x = dst
  · rw [if_pos (by omega), if_pos hx, hx, Nat.sub_self, Nat.add_zero]
  · rw [if_neg (by omega), if_neg hx]

/-- A number that is loaded and stored is moved. -/
theorem storeLE_loadLE (m : Mem) (dst src n : ℕ) :
    storeLE m dst n (loadLE m src n) = copyBytes m dst src n := by
  funext x
  simp only [storeLE, copyBytes]
  split_ifs with hx
  · have hbyte := loadLE_part m src (n := n) (i := x - dst) (k := 1) (by omega)
    rw [loadLE, loadLE, Nat.mul_zero, Nat.add_zero, Nat.pow_one] at hbyte
    rw [← UInt8.toNat_inj, UInt8.toNat_ofNat', ← hbyte]
  · rfl

/-- A move in two parts, the first bytes first: if it is down, or to behind the source, the second
part is still there. -/
theorem copyBytes_append (m : Mem) {dst src k n : ℕ} (h : dst ≤ src ∨ src + (k + n) ≤ dst) :
    copyBytes (copyBytes m dst src k) (dst + k) (src + k) n = copyBytes m dst src (k + n) := by
  funext x
  simp only [copyBytes]
  by_cases hlow : dst ≤ x ∧ x < dst + k
  · rw [if_neg (by omega), if_pos hlow, if_pos (by omega)]
  · rw [if_neg hlow]
    by_cases hhigh : dst + k ≤ x ∧ x < dst + k + n
    · rw [if_pos hhigh, if_neg (by omega), if_pos (by omega),
        show src + k + (x - (dst + k)) = src + (x - dst) by omega]
    · rw [if_neg hhigh, if_neg (by omega)]

/-- A move up, the last byte first. -/
theorem copyBytes_last (m : Mem) {dst src n : ℕ} (h : src ≤ dst) :
    copyBytes (Function.update m (dst + n) (m (src + n))) dst src n =
      copyBytes m dst src (n + 1) := by
  funext x
  simp only [copyBytes, Function.update_apply]
  by_cases hlow : dst ≤ x ∧ x < dst + n
  · have hunread : ¬ src + (x - dst) = dst + n := by omega
    rw [if_pos hlow, if_neg hunread, if_pos (by omega)]
  · rw [if_neg hlow]
    by_cases hlast : x = dst + n
    · rw [if_pos hlast, if_pos (by omega), hlast, Nat.add_sub_cancel_left]
    · rw [if_neg hlast, if_neg (by omega)]

/-! ### Fills -/

/-- A fill changes its own bytes only. -/
theorem fillBytes_eqOn (m : Mem) (dst n : ℕ) (b : UInt8) :
    Set.EqOn (fillBytes m dst n b) m (Set.Ico dst (dst + n))ᶜ := by
  intro x hx
  exact if_neg hx

theorem fillBytes_zero (m : Mem) (dst : ℕ) (b : UInt8) : fillBytes m dst 0 b = m := by
  funext x
  exact if_neg (by omega)

/-- A byte is filled. -/
theorem fillBytes_one (m : Mem) (dst : ℕ) (b : UInt8) :
    fillBytes m dst 1 b = Function.update m dst b := by
  funext x
  rw [Function.update_apply]
  simp only [fillBytes]
  by_cases hx : x = dst
  · rw [if_pos (by omega), if_pos hx]
  · rw [if_neg (by omega), if_neg hx]

/-- A fill in two parts. -/
theorem fillBytes_append (m : Mem) (dst k n : ℕ) (b : UInt8) :
    fillBytes (fillBytes m dst k b) (dst + k) n b = fillBytes m dst (k + n) b := by
  funext x
  simp only [fillBytes]
  by_cases hhigh : dst + k ≤ x ∧ x < dst + k + n
  · rw [if_pos hhigh, if_pos (by omega)]
  · rw [if_neg hhigh]
    by_cases hlow : dst ≤ x ∧ x < dst + k
    · rw [if_pos hlow, if_pos (by omega)]
    · rw [if_neg hlow, if_neg (by omega)]

/-- A number whose bytes are all the same fills them. -/
theorem storeLE_eq_fillBytes (m : Mem) (dst : ℕ) {n v : ℕ} {b : UInt8}
    (h : ∀ i < n, v / 256 ^ i % 256 = b.toNat) : storeLE m dst n v = fillBytes m dst n b := by
  funext x
  simp only [storeLE, fillBytes]
  split_ifs with hx
  · rw [← UInt8.toNat_inj, UInt8.toNat_ofNat']
    exact h (x - dst) (by omega)
  · rfl

/-! ### Lists of bytes -/

@[simp] theorem length_loadBytes (m : Mem) (a n : ℕ) : (loadBytes m a n).length = n := by
  rw [loadBytes, List.length_map, List.length_range]

/-- What was stored is loaded. -/
theorem loadBytes_storeBytes (m : Mem) (a : ℕ) {bytes : List UInt8} {n : ℕ} (h : n ≤ bytes.length) :
    loadBytes (storeBytes m a bytes) a n = bytes.take n := by
  refine List.ext_getElem (by simp [h]) fun i hi _ => ?_
  rw [length_loadBytes] at hi
  simp only [loadBytes, storeBytes, List.getElem_map, List.getElem_range, List.getElem_take]
  rw [if_pos (Nat.le_add_right a i), Nat.add_sub_cancel_left, List.getD_eq_getElem?_getD,
    List.getElem?_eq_getElem (by omega), Option.getD_some]

theorem storeBytes_nil (m : Mem) (a : ℕ) : storeBytes m a [] = m := by
  funext x
  exact ite_self _

/-- A byte is stored, and then those behind it. -/
theorem storeBytes_cons (m : Mem) (a : ℕ) (b : UInt8) (bytes : List UInt8) :
    storeBytes (Function.update m a b) (a + 1) bytes = storeBytes m a (b :: bytes) := by
  funext x
  simp only [storeBytes, Function.update_apply]
  by_cases hx : a + 1 ≤ x
  · obtain ⟨i, rfl⟩ := Nat.exists_eq_add_of_le hx
    have hne : ¬ a + 1 + i = a := by omega
    rw [if_pos hx, if_neg hne, if_pos (by omega), Nat.add_sub_cancel_left, Nat.add_assoc,
      Nat.add_sub_cancel_left, Nat.add_comm 1, List.getD_cons_succ]
  · rw [if_neg hx]
    by_cases heq : x = a
    · rw [if_pos heq, if_pos (by omega), heq, Nat.sub_self, List.getD_cons_zero]
    · rw [if_neg heq, if_neg (by omega)]

/-- A byte behind those that were stored. -/
theorem storeBytes_snoc (m : Mem) (a : ℕ) (bytes : List UInt8) (b : UInt8) :
    Function.update (storeBytes m a bytes) (a + bytes.length) b = storeBytes m a (bytes ++ [b]) := by
  induction bytes generalizing m a with
  | nil => rw [storeBytes_nil, List.nil_append, ← storeBytes_cons, storeBytes_nil]; rfl
  | cons c bytes ih =>
    have hend : a + (c :: bytes).length = a + 1 + bytes.length := by
      rw [List.length_cons]
      omega
    rw [← storeBytes_cons, hend, ih, List.cons_append, storeBytes_cons]

/-- Nothing else changes. -/
theorem storeBytes_eqOn (m : Mem) (a : ℕ) (bytes : List UInt8) :
    Set.EqOn (storeBytes m a bytes) m (Set.Ico a (a + bytes.length))ᶜ := by
  intro x hx
  rw [Set.mem_compl_iff, Set.mem_Ico] at hx
  simp only [storeBytes]
  split_ifs with hle
  · rw [List.getD_eq_getElem?_getD, List.getElem?_eq_none (by omega), Option.getD_none]
  · rfl

/-- The bytes at the beginning of some. -/
theorem take_loadBytes (m : Mem) (a : ℕ) {k n : ℕ} (h : k ≤ n) :
    (loadBytes m a n).take k = loadBytes m a k := by
  rw [loadBytes, loadBytes, ← List.map_take, List.take_range, Nat.min_eq_left h]

end PrismaticOS.Library
