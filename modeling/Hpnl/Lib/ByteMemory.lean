import Mathlib

/-!
# Bytes in memory

A memory of bytes, and `memcpy` as the C standard has it: two regions that do not
overlap are copied, and nothing is said of regions that do.

* `read`, `store` — the bytes from an address on; `Apart`, `Beside`, `Within` — how regions lie.
* `read_store`, `read_store_of_lt`, `read_store_of_beside`, `store_eq_self` — what a store
  does to what is read.
* `Memcpy` — a `memcpy` of the standard; `Memcpy.exists_wrong` — a copy between
  regions that overlap need not yield anything in particular.
-/

/-- The bytes of the memory. -/
abbrev ByteMemory := ℕ → UInt8

namespace ByteMemory

variable {m : ByteMemory} {a b n k : ℕ} {bs : List UInt8}

/-- The `n` bytes from `a` on. -/
def read (m : ByteMemory) (a n : ℕ) : List UInt8 := (List.range n).map fun i => m (a + i)

/-- The memory after the bytes have been written from `a` on. -/
def store (m : ByteMemory) (a : ℕ) (bs : List UInt8) : ByteMemory := fun x =>
  if a ≤ x then bs.getD (x - a) (m x) else m x

/-- Two regions of `n` bytes that do not overlap. -/
def Apart (a b n : ℕ) : Prop := a + n ≤ b ∨ b + n ≤ a

instance (a b n : ℕ) : Decidable (Apart a b n) := inferInstanceAs (Decidable (_ ∨ _))

/-- The `n` bytes from `a` on and the `k` bytes from `b` on do not overlap. -/
def Beside (a n b k : ℕ) : Prop := a + n ≤ b ∨ b + k ≤ a

instance (a n b k : ℕ) : Decidable (Beside a n b k) := inferInstanceAs (Decidable (_ ∨ _))

/-- Every one of the `n` bytes from `b` on is one of the `k` bytes from `a` on. -/
def Within (a k b n : ℕ) : Prop := ∀ i < n, a ≤ b + i ∧ b + i < a + k

theorem within_iff {off : ℕ} : Within a k (a + off) n ↔ n = 0 ∨ off + n ≤ k := by
  constructor
  · intro h
    by_contra hlong
    have hlast := h (n - 1) (by omega)
    omega
  · intro h i hi
    omega

/-! ## Reading -/

@[simp] theorem length_read (m : ByteMemory) (a n : ℕ) : (m.read a n).length = n := by
  simp [read]

@[simp] theorem read_zero (m : ByteMemory) (a : ℕ) : m.read a 0 = [] := rfl

theorem getElem_read (m : ByteMemory) (a n : ℕ) {i : ℕ} (h : i < (m.read a n).length) :
    (m.read a n)[i] = m (a + i) := by
  simp [read]

/-- A list is what is read if it is so byte by byte. -/
theorem read_eq_iff (h : bs.length = n) :
    m.read a n = bs ↔ ∀ i (hi : i < bs.length), m (a + i) = bs[i] := by
  constructor
  · rintro rfl i hi
    exact (getElem_read m a n hi).symm
  · intro hbytes
    apply List.ext_getElem
    · rw [length_read, h]
    · intro i hi hi'
      rw [getElem_read]
      exact hbytes i hi'

theorem read_congr {m' : ByteMemory} (h : ∀ i < n, m (a + i) = m' (a + i)) :
    m.read a n = m'.read a n := by
  apply List.map_congr_left
  intro i hi
  exact h i (List.mem_range.mp hi)

theorem eq_of_read {m' : ByteMemory} (h : m.read a n = m'.read a n) {i : ℕ} (hi : i < n) :
    m (a + i) = m' (a + i) := by
  have hlen : (m'.read a n).length = n := length_read m' a n
  have hbyte := (read_eq_iff hlen).mp h i (by rwa [hlen])
  rwa [getElem_read] at hbyte

theorem read_add (m : ByteMemory) (a n k : ℕ) :
    m.read a (n + k) = m.read a n ++ m.read (a + n) k := by
  unfold read
  rw [List.range_add, List.map_append, List.map_map]
  simp only [Function.comp_def, Nat.add_assoc]

/-! ## Writing -/

theorem store_of_lt {x : ℕ} (h : x < a) : m.store a bs x = m x :=
  if_neg (Nat.not_le.mpr h)

theorem store_of_ge {x : ℕ} (h : a + bs.length ≤ x) : m.store a bs x = m x := by
  unfold store
  rw [if_pos (by omega), List.getD_eq_default _ _ (by omega)]

theorem store_inside {i : ℕ} (h : i < bs.length) : m.store a bs (a + i) = bs[i] := by
  unfold store
  rw [if_pos (Nat.le_add_right _ _), Nat.add_sub_cancel_left]
  exact List.getD_eq_getElem _ _ h

/-- What was written is read back. -/
@[simp] theorem read_store (m : ByteMemory) (a : ℕ) (bs : List UInt8) :
    (m.store a bs).read a bs.length = bs :=
  (read_eq_iff rfl).mpr fun _ hi => store_inside hi

theorem read_store_of_lt (h : b + k ≤ a) : (m.store a bs).read b k = m.read b k := by
  apply read_congr
  intro i hi
  exact store_of_lt (by omega)

/-- Bytes are still read after a store beside them. -/
theorem read_store_of_beside (h : Beside a bs.length b n) :
    (m.store a bs).read b n = m.read b n := by
  apply read_congr
  intro i hi
  rcases h with h | h
  · exact store_of_ge (by omega)
  · exact store_of_lt (by omega)

/-- What is there already is written without effect. -/
theorem store_eq_self : m.store a bs = m ↔ m.read a bs.length = bs := by
  constructor
  · intro h
    rw [← h, read_store]
  · intro h
    funext x
    by_cases hlo : x < a
    · exact store_of_lt hlo
    by_cases hhi : a + bs.length ≤ x
    · exact store_of_ge hhi
    obtain ⟨i, rfl⟩ := Nat.exists_eq_add_of_le (Nat.not_lt.mp hlo)
    have hi : i < bs.length := by omega
    rw [store_inside hi]
    exact ((read_eq_iff rfl).mp h i hi).symm

/-- Bytes are still read after a store if and only if those that it overwrites are
overwritten by themselves. -/
theorem read_store_iff : (m.store a bs).read b n = m.read b n ↔
    ∀ i < n, ∀ j (hj : j < bs.length), b + i = a + j → m (b + i) = bs[j] := by
  constructor
  · intro h i hi j hj hij
    rw [← eq_of_read h hi, hij]
    exact store_inside hj
  · intro h
    apply read_congr
    intro i hi
    by_cases hlo : b + i < a
    · exact store_of_lt hlo
    by_cases hhi : a + bs.length ≤ b + i
    · exact store_of_ge hhi
    obtain ⟨j, hj⟩ := Nat.exists_eq_add_of_le (Nat.not_lt.mp hlo)
    have hlen : j < bs.length := by omega
    rw [h i hi j hlen hj, hj]
    exact store_inside hlen

end ByteMemory

/-! ## `memcpy` -/

open ByteMemory

/-- `memcpy(dst, src, n)`: regions that do not overlap are copied. -/
structure Memcpy where
  copy : ByteMemory → ℕ → ℕ → ℕ → ByteMemory
  copy_of_apart : ∀ m dst src n, Apart dst src n → copy m dst src n = m.store dst (m.read src n)

namespace Memcpy

/-- A copy by way of a buffer of its own. -/
def memmove : Memcpy where
  copy m dst src n := m.store dst (m.read src n)
  copy_of_apart _ _ _ _ _ := rfl

instance : Inhabited Memcpy := ⟨memmove⟩

/-- A copy that changes the bytes where the regions overlap. -/
def garbling : Memcpy where
  copy m dst src n :=
    if Apart dst src n then m.store dst (m.read src n)
    else m.store dst ((m.read src n).map (· + 1))
  copy_of_apart _ _ _ _ h := if_pos h

/-- Whatever a copy between regions that overlap should yield, there is a `memcpy` that
does not. -/
theorem exists_wrong {m : ByteMemory} {dst src n : ℕ} (h : ¬ Apart dst src n)
    (bs : List UInt8) : ∃ memcpy : Memcpy, (memcpy.copy m dst src n).read dst n ≠ bs := by
  by_contra hall
  push Not at hall
  have hn : 0 < n := by
    unfold Apart at h
    omega
  have hmove := hall memmove
  have hgarbled := hall garbling
  have hcopy : garbling.copy m dst src n = m.store dst ((m.read src n).map (· + 1)) := if_neg h
  have hsame : m.read src n = (m.read src n).map (· + 1) := by
    have h₁ := read_store m dst (m.read src n)
    have h₂ := read_store m dst ((m.read src n).map (· + 1))
    rw [List.length_map] at h₂
    rw [length_read] at h₁ h₂
    rw [hcopy] at hgarbled
    exact h₁.symm.trans (hmove.trans (hgarbled.symm.trans h₂))
  have hfirst := (read_eq_iff (by simp)).mp hsame 0 (by simpa using hn)
  rw [List.getElem_map, getElem_read] at hfirst
  simp at hfirst

end Memcpy
