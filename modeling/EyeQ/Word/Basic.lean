import Mathlib.Algebra.BigOperators.Group.List.Basic
import Mathlib.Data.Int.Basic
import Mathlib.Tactic.Ring

/-!
# Fixed-width integers over `ℕ` and `ℤ`

A value of an unsigned C type is a natural number below `2^w`; arithmetic on it is arithmetic on
`ℕ` followed by the truncation `u32` or `u64`.  A value of type `s32` is an integer in
`[-2^31, 2^31)`; `s32` is the (wrapping) conversion to it.  `sub64 a b` is the unsigned difference
`a - b`, which wraps when `a < b`; `u32OfInt` and `u64OfInt` convert a signed value.
-/

namespace EyeQ

def u32 (n : ℕ) : ℕ := n % 2 ^ 32

def u64 (n : ℕ) : ℕ := n % 2 ^ 64

/-- The two's complement `s32` with the low 32 bits of `z`. -/
def s32 (z : ℤ) : ℤ := z.bmod (2 ^ 32)

/-- The `u32` with the low 32 bits of `z`. -/
def u32OfInt (z : ℤ) : ℕ := (z % 2 ^ 32).toNat

/-- The `u64` with the low 64 bits of `z`. -/
def u64OfInt (z : ℤ) : ℕ := (z % 2 ^ 64).toNat

/-- `a - b` in `u64`. -/
def sub64 (a b : ℕ) : ℕ := u64OfInt ((a : ℤ) - b)

theorem u32_le (n : ℕ) : u32 n ≤ n := Nat.mod_le _ _

theorem u64_le (n : ℕ) : u64 n ≤ n := Nat.mod_le _ _

theorem u32_of_lt {n : ℕ} (h : n < 2 ^ 32) : u32 n = n := Nat.mod_eq_of_lt h

theorem u64_of_lt {n : ℕ} (h : n < 2 ^ 64) : u64 n = n := Nat.mod_eq_of_lt h

theorem u32OfInt_lt (z : ℤ) : u32OfInt z < 2 ^ 32 := by
  unfold u32OfInt
  omega

/-- A value that fits is its own `s32`. -/
theorem s32_of_fits {z : ℤ} (hlo : -2 ^ 31 ≤ z) (hhi : z < 2 ^ 31) : s32 z = z := by
  unfold s32
  rw [Int.bmod_eq_of_le] <;> omega

theorem s32_eq_ite (z : ℤ) :
    s32 z = if z % 2 ^ 32 < 2 ^ 31 then z % 2 ^ 32 else z % 2 ^ 32 - 2 ^ 32 := by
  unfold s32
  rw [Int.bmod]
  rfl

theorem s32_ge (z : ℤ) : -2 ^ 31 ≤ s32 z := Int.le_bmod (by decide)

theorem s32_lt (z : ℤ) : s32 z < 2 ^ 31 := Int.bmod_lt (by decide)

/-- An `int` survives the way through a `u64`. -/
theorem s32_u64OfInt {z : ℤ} (hlo : -2 ^ 31 ≤ z) (hhi : z < 2 ^ 31) : s32 (u64OfInt z) = z := by
  have hmod : ((u64OfInt z : ℕ) : ℤ) = z % 2 ^ 64 := by
    unfold u64OfInt
    omega
  rw [hmod, s32, Int.bmod]
  omega

theorem u64OfInt_natCast (n : ℕ) : u64OfInt n = u64 n := by
  unfold u64OfInt u64
  omega

/-- A difference that does not go below zero does not wrap. -/
theorem sub64_of_le {a b : ℕ} (hba : b ≤ a) (ha : a < 2 ^ 64) : sub64 a b = a - b := by
  unfold sub64 u64OfInt
  omega

theorem u32OfInt_sub_of_le {a b : ℕ} (hba : b ≤ a) (ha : a < 2 ^ 32) :
    u32OfInt ((a : ℤ) - b) = a - b := by
  unfold u32OfInt
  omega

/-- One below zero is the greatest `u32`. -/
theorem u32OfInt_sub_succ (a : ℕ) : u32OfInt ((a : ℤ) - (a + 1 : ℕ)) = 2 ^ 32 - 1 := by
  unfold u32OfInt
  omega

/-- The difference undoes an addition that wrapped. -/
theorem sub64_u64_add (a : ℕ) {b : ℕ} (hb : b < 2 ^ 64) : sub64 (u64 (a + b)) a = b := by
  unfold sub64 u64 u64OfInt
  omega

/-- A difference of two `u64` that have both wrapped. -/
theorem sub64_u64_u64 (a b : ℕ) : sub64 (u64 (a + b)) (u64 a) = u64 b := by
  unfold sub64 u64 u64OfInt
  omega

/-- Numbers may be cut before they are added. -/
theorem u64_sum_map_u64 {α : Type*} (f : α → ℕ) (l : List α) :
    u64 (l.map fun a => u64 (f a)).sum = u64 (l.map f).sum := by
  unfold u64
  rw [List.sum_nat_mod (l.map f), List.map_map]
  rfl

/-- A `u64` counter, to which the numbers are added one by one. -/
def count64 (l : List ℕ) : ℕ := l.foldl (fun n a => u64 (n + a)) 0

/-- It is the total modulo `2^64`. -/
theorem count64_eq (l : List ℕ) : count64 l = u64 l.sum := by
  have hfoldl : ∀ n, l.foldl (fun n a => u64 (n + a)) (u64 n) = u64 (n + l.sum) := by
    induction l with
    | nil => exact fun n => rfl
    | cons a l ih =>
      intro n
      have hcut : u64 (u64 n + a) = u64 (n + a) := Nat.mod_add_mod ..
      rw [List.foldl_cons, hcut, ih, List.sum_cons, Nat.add_assoc]
  rw [count64, ← Nat.zero_add l.sum]
  exact hfoldl 0

theorem u64OfInt_lt (z : ℤ) : u64OfInt z < 2 ^ 64 := by
  unfold u64OfInt
  omega

/-- A quotient that is formed of a `u64` and stored in a `u32` is exact if both have room. -/
theorem u32_u64_div_eq_iff {n d : ℕ} (hpos : 0 < d) (hd : d < 2 ^ 64) :
    u32 (u64 n / d) = n / d ↔ n < 2 ^ 64 ∧ n < 2 ^ 32 * d := by
  constructor
  · intro h
    have hn : n < 2 ^ 64 := by
      -- otherwise the wrap takes away more than one `d`
      by_contra hge
      have hwrap : u64 n + d ≤ n := by
        unfold u64
        omega
      have hdiv : u64 n / d + 1 ≤ n / d := by
        rw [← Nat.add_div_right _ hpos]
        exact Nat.div_le_div_right hwrap
      have hle := u32_le (u64 n / d)
      omega
    have hquot : n / d < 2 ^ 32 := by
      rw [u64_of_lt hn] at h
      rw [← h]
      exact Nat.mod_lt _ (by decide)
    exact ⟨hn, (Nat.div_lt_iff_lt_mul hpos).1 hquot⟩
  · rintro ⟨hn, hquot⟩
    rw [u64_of_lt hn, u32_of_lt ((Nat.div_lt_iff_lt_mul hpos).2 hquot)]

end EyeQ
