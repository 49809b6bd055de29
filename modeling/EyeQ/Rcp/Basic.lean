import Mathlib.Data.Nat.Basic
import Mathlib.Order.MinMax

/-!
# One step of the rate control protocol

A controller that shares a capacity `c` advertises a rate `f` and measures the load `x` that
results.  Its next rate is `f (1 + (c - x) / 2c)`, computed as `f (3c - x) / 2c` in integers.  A
load may be negative here: `next` is the step as it is meant, for whatever number is taken for the
load.

The step goes in the right direction: it does not increase the rate at or above capacity
(`next_le`), does not decrease it at or below (`le_next`), and a greater load never gives a greater
rate (`next_anti`).  At three times the capacity it stops the sender (`next_eq_zero`).  All this is
true as well of `clamped`, which keeps the rate between two limits.  `Steers` is what is expected of
a controller that computes the step with numbers of limited size.
-/

namespace EyeQ.Rcp

/-- The next rate, for the capacity `c`, the rate `f` and the load `x`. -/
def next (c f : ℕ) (x : ℤ) : ℕ := f * (3 * (c : ℤ) - x).toNat / (2 * c)

variable {c f : ℕ} {x y : ℤ}

theorem next_le (h : (c : ℤ) ≤ x) : next c f x ≤ f := by
  apply Nat.div_le_of_le_mul
  rw [Nat.mul_comm]
  exact Nat.mul_le_mul_right f (by omega)

theorem le_next (hc : 0 < c) (h : x ≤ c) : f ≤ next c f x := by
  rw [next, Nat.le_div_iff_mul_le (by omega)]
  exact Nat.mul_le_mul_left f (by omega)

theorem next_anti (h : x ≤ y) : next c f y ≤ next c f x :=
  Nat.div_le_div_right (Nat.mul_le_mul_left f (by omega))

theorem next_eq_zero (h : 3 * (c : ℤ) ≤ x) : next c f x = 0 := by
  rw [next, show (3 * (c : ℤ) - x).toNat = 0 by omega]
  simp

/-- A load below `-c` would double the rate. -/
theorem two_mul_le_next (hc : 0 < c) (h : x ≤ -(c : ℤ)) : 2 * f ≤ next c f x := by
  rw [next, Nat.le_div_iff_mul_le (by omega)]
  calc 2 * f * (2 * c) = f * (4 * c) := by rw [Nat.mul_assoc, Nat.mul_left_comm]; congr 1; omega
    _ ≤ f * (3 * (c : ℤ) - x).toNat := Nat.mul_le_mul_left f (by omega)

/-! ### Between two limits -/

/-- The next rate, kept between `lo` and `hi`. -/
def clamped (lo hi c f : ℕ) (x : ℤ) : ℕ := max lo (min hi (next c f x))

section Clamped

variable {lo hi : ℕ}

theorem clamped_le (hlo : lo ≤ f) (h : (c : ℤ) ≤ x) : clamped lo hi c f x ≤ f :=
  max_le hlo ((min_le_right _ _).trans (next_le h))

theorem le_clamped (hc : 0 < c) (h : x ≤ c) : min f hi ≤ clamped lo hi c f x := by
  rw [clamped, min_comm]
  exact (min_le_min (le_refl _) (le_next hc h)).trans (le_max_right _ _)

theorem clamped_anti (h : x ≤ y) : clamped lo hi c f y ≤ clamped lo hi c f x :=
  max_le_max (le_refl _) (min_le_min (le_refl _) (next_anti h))

theorem clamped_of_le (h : 3 * (c : ℤ) ≤ x) : clamped lo hi c f x = lo := by
  rw [clamped, next_eq_zero h]
  simp

end Clamped

/-! ### The right direction -/

/-- The controller `new` of rates between `lo` and the capacity `c` reacts in the right direction to
loads of up to `limit`. -/
structure Steers (lo c limit : ℕ) (new : ℕ → ℕ → ℕ) : Prop where
  le : ∀ {f x}, lo ≤ f → f ≤ c → x ≤ limit → c ≤ x → new f x ≤ f
  ge : ∀ {f x}, lo ≤ f → f ≤ c → x ≤ limit → x ≤ c → f ≤ new f x
  anti : ∀ {f x y}, lo ≤ f → f ≤ c → x ≤ limit → y ≤ x → new f x ≤ new f y

section Steers

variable {lo limit : ℕ} {new : ℕ → ℕ → ℕ}

theorem steers_of_clamped (hc : 0 < c)
    (h : ∀ f x, f ≤ c → x ≤ limit → new f x = clamped lo c c f x) : Steers lo c limit new where
  le := by
    intro f x hlo hhi hx hcx
    rw [h f x hhi hx]
    exact clamped_le hlo (by omega)
  ge := by
    intro f x _ hhi hx hxc
    rw [h f x hhi hx]
    exact (le_min le_rfl hhi).trans (le_clamped hc (by omega))
  anti := by
    intro f x y _ hhi hx hyx
    rw [h f x hhi hx, h f y hhi (hyx.trans hx)]
    exact clamped_anti (by omega)

/-- A controller that has no choice steers. -/
theorem steers_of_eq (h : ∀ f x, new f x = c) : Steers c c limit new where
  le := by
    intro f x hlo _ _ _
    rw [h]
    exact hlo
  ge := by
    intro f x _ hhi _ _
    rw [h]
    exact hhi
  anti := by
    intro f x y _ _ _ _
    rw [h, h]

/-- A controller whose factor wraps behind `3 c` does not. -/
theorem not_steers_of_wrap (hlo : lo < c) (hlimit : 3 * c < limit) (hstop : new c (3 * c) = lo)
    (hwrap : new c (3 * c + 1) = c) : ¬ Steers lo c limit new := by
  intro h
  have hanti := h.anti hlo.le le_rfl (x := 3 * c + 1) (y := 3 * c) (by omega) (by omega)
  omega

end Steers

end EyeQ.Rcp
