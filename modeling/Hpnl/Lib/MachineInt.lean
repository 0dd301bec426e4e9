import Mathlib

/-!
# C++ integer conversions on a 64-bit target

`int` and `uint64_t` values are kept as the integers they stand for; the two
functions here are the conversions into those types, which wrap.  Signed
arithmetic wraps too (the sources are built with `-fwrapv`), so `toInt32 (x + y)`
is `int` addition.

* `toInt32_toUInt64` — an `int` stored in a `uint64_t` and read back is itself.
* `toInt32_inj` — counting upwards gives pairwise different `int`s for 2³² steps.
* `exists_le_toInt32_iff` — **when counting in steps, with the wrap, ever gets to a bound**.
-/

namespace MachineInt

/-- Conversion to `int`: the residue modulo 2³² in [-2³¹, 2³¹). -/
@[irreducible] def toInt32 (x : ℤ) : ℤ := (x + 2147483648) % 4294967296 - 2147483648

/-- Conversion to `uint64_t` and `size_t`: the residue modulo 2⁶⁴. -/
@[irreducible] def toUInt64 (x : ℤ) : ℕ := (x % 18446744073709551616).toNat

theorem toInt32_eq_self {x : ℤ} (hlo : -2 ^ 31 ≤ x) (hhi : x < 2 ^ 31) : toInt32 x = x := by
  simp only [toInt32]
  omega

theorem toUInt64_eq_self {x : ℕ} (h : x < 2 ^ 64) : toUInt64 x = x := by
  simp only [toUInt64]
  omega

/-- An `int` is less than 2³¹. -/
theorem toInt32_lt (x : ℤ) : toInt32 x < 2 ^ 31 := by
  simp only [toInt32]
  omega

@[simp] theorem toInt32_zero : toInt32 0 = 0 := toInt32_eq_self (by norm_num) (by norm_num)

@[simp] theorem toInt32_toUInt64 (x : ℤ) : toInt32 (toUInt64 x) = toInt32 x := by
  simp only [toInt32, toUInt64]
  omega

@[simp] theorem toInt32_toInt32 (x : ℤ) : toInt32 (toInt32 x) = toInt32 x := by
  simp only [toInt32]
  omega

theorem toInt32_toInt32_add (x y : ℤ) : toInt32 (toInt32 x + y) = toInt32 (x + y) := by
  simp only [toInt32]
  omega

/-- Counters below 2³² have pairwise different `int` values. -/
theorem toInt32_inj {a b : ℕ} (ha : a < 2 ^ 32) (hb : b < 2 ^ 32) (h : toInt32 a = toInt32 b) :
    a = b := by
  simp only [toInt32] at h
  omega

/-- An `int` is congruent to what has been converted. -/
theorem emod_toInt32 (x : ℤ) {g : ℤ} (hg : g ∣ 2 ^ 32) : toInt32 x % g = x % g := by
  have hcongr : toInt32 x % 2 ^ 32 = x % 2 ^ 32 := by
    simp only [toInt32]
    omega
  rw [← Int.emod_emod_of_dvd _ hg, hcongr, Int.emod_emod_of_dvd _ hg]

/-- The greatest common divisor of `a` and `n` is a multiple of `a`, modulo `n`. -/
theorem exists_mul_emod_eq (a q : ℤ) {n : ℤ} (hn : 0 < n) :
    ∃ k : ℕ, (k * a) % n = (q * Int.gcd a n) % n := by
  refine ⟨((q * Int.gcdA a n) % n).toNat, ?_⟩
  rw [Int.toNat_of_nonneg (Int.emod_nonneg _ hn.ne'), Int.mul_emod, Int.emod_emod, ← Int.mul_emod,
    Int.gcd_eq_gcd_ab]
  rw [show q * (a * Int.gcdA a n + n * Int.gcdB a n) =
    q * Int.gcdA a n * a + n * (q * Int.gcdB a n) by ring, Int.add_mul_emod_self_left]

/-- **A counter that wraps.**  Counting from `start` in steps of `step` gets to an `int` of at
least `lo` if and only if some `int` of at least `lo` is congruent to `start` modulo
the greatest common divisor of `step` and 2³². -/
theorem exists_le_toInt32_iff {lo start step : ℤ} (hlo : -2 ^ 31 ≤ lo) :
    (∃ k : ℕ, lo ≤ toInt32 (start + k * step)) ↔
      lo + (start - lo) % Int.gcd step (2 ^ 32) < 2 ^ 31 := by
  have hdvd : (Int.gcd step (2 ^ 32) : ℤ) ∣ 2 ^ 32 := Int.gcd_dvd_right ..
  have hpos : (0 : ℤ) < Int.gcd step (2 ^ 32) := by
    exact_mod_cast Int.gcd_pos_of_ne_zero_right step (by norm_num)
  constructor
  · rintro ⟨k, hk⟩
    have hlt := toInt32_lt (start + k * step)
    have hstep : (k * step) % (Int.gcd step (2 ^ 32) : ℤ) = 0 :=
      Int.emod_eq_zero_of_dvd ((Int.gcd_dvd_left ..).mul_left _)
    have hcongr : (toInt32 (start + k * step) - lo) % (Int.gcd step (2 ^ 32) : ℤ) =
        (start - lo) % (Int.gcd step (2 ^ 32) : ℤ) := by
      rw [Int.sub_emod, emod_toInt32 _ hdvd, Int.add_emod, hstep, add_zero, Int.emod_emod,
        ← Int.sub_emod]
    have hle : (toInt32 (start + k * step) - lo) % (Int.gcd step (2 ^ 32) : ℤ) ≤
        toInt32 (start + k * step) - lo := by
      have hdiv := Int.emod_add_mul_ediv (toInt32 (start + k * step) - lo) (Int.gcd step (2 ^ 32))
      have hquot : 0 ≤ (Int.gcd step (2 ^ 32) : ℤ) *
          ((toInt32 (start + k * step) - lo) / Int.gcd step (2 ^ 32)) :=
        mul_nonneg hpos.le (Int.ediv_nonneg (by omega) hpos.le)
      omega
    omega
  · intro h
    have hnonneg := Int.emod_nonneg (start - lo) hpos.ne'
    -- the `int` is away from `start` by a multiple of the divisor
    obtain ⟨k, hk⟩ := exists_mul_emod_eq step (-((start - lo) / Int.gcd step (2 ^ 32)))
      (show (0 : ℤ) < 2 ^ 32 by norm_num)
    refine ⟨k, ?_⟩
    have hdiv := Int.emod_add_mul_ediv (start - lo) (Int.gcd step (2 ^ 32))
    have hsum : start + -((start - lo) / Int.gcd step (2 ^ 32)) * Int.gcd step (2 ^ 32) =
        lo + (start - lo) % Int.gcd step (2 ^ 32) := by
      linarith
    have hcongr : start + k * step ≡ lo + (start - lo) % Int.gcd step (2 ^ 32) [ZMOD 2 ^ 32] := by
      rw [← hsum]
      exact Int.ModEq.add_left start hk
    have hself := toInt32_eq_self (x := lo + (start - lo) % Int.gcd step (2 ^ 32)) (by omega) h
    have hsame : toInt32 (start + k * step) =
        toInt32 (lo + (start - lo) % Int.gcd step (2 ^ 32)) := by
      have hshift := hcongr.add_right 2147483648
      unfold Int.ModEq at hshift
      simp only [toInt32]
      omega
    rw [hsame, hself]
    omega

end MachineInt
