import EyeQ.Rcp.Basic
import Mathlib.Algebra.Order.Ring.Nat
import Mathlib.Order.Lattice.Nat
import Mathlib.Order.Monotone.Basic
import Mathlib.Tactic.Linarith
import Mathlib.Tactic.Ring

/-!
# The controller and its senders

`n` senders transmit at the rate `f` that the controller has advertised, so that it measures the
load `n f`, and advertises `loop lo c n f` next: a rate between `lo` and the capacity `c`.

Up to capacity the rate climbs (`le_loop`) and does not overshoot (`mul_loop_le`), so it comes to
rest (`exists_rest`).  The division rounds down, and a rate at rest need not be the fair share `c /
n`: `mul_sub_lt` says how far below it can stay.  Above capacity the rate falls (`loop_le`), and one
step from any load of up to `3 c` leads to at most `9 c / 8` (`mul_loop_le_of_le_three`).
-/

namespace EyeQ.Rcp

/-- The next rate, if `n` senders transmit at the rate `f`. -/
def loop (lo c n f : ℕ) : ℕ := clamped lo c c f (n * f : ℕ)

variable {lo c n f : ℕ}

theorem next_mul (c n f : ℕ) : next c f (n * f : ℕ) = f * (3 * c - n * f) / (2 * c) := by
  rw [next]
  congr 2
  omega

/-- The quotient, for all senders together. -/
theorem mul_next_mul_le (c n f : ℕ) :
    n * next c f (n * f : ℕ) * (2 * c) ≤ n * f * (3 * c - n * f) := by
  calc n * next c f (n * f : ℕ) * (2 * c) = n * (next c f (n * f : ℕ) * (2 * c)) := by ring
    _ ≤ n * (f * (3 * c - n * f)) := by
      rw [next_mul]
      exact Nat.mul_le_mul_left n (Nat.div_mul_le_self _ _)
    _ = n * f * (3 * c - n * f) := by ring

theorem le_loop (hn : 1 ≤ n) (hc : 0 < c) (h : n * f ≤ c) : f ≤ loop lo c n f := by
  have hf : f ≤ c := (Nat.le_mul_of_pos_left f hn).trans h
  calc f = min f c := (min_eq_left hf).symm
    _ ≤ loop lo c n f := le_clamped hc (by exact_mod_cast h)

theorem loop_le (hlo : lo ≤ f) (h : c ≤ n * f) : loop lo c n f ≤ f :=
  clamped_le hlo (by exact_mod_cast h)

/-- The rate climbs to capacity at most: `x (3c - x) ≤ 2c²` for a load `x` of up to `c`. -/
theorem mul_loop_le (hc : 0 < c) (hlo : n * lo ≤ c) (h : n * f ≤ c) : n * loop lo c n f ≤ c := by
  have hnext : n * next c f (n * f : ℕ) ≤ c := by
    have hquot := mul_next_mul_le c n f
    obtain ⟨d, hd⟩ := Nat.exists_eq_add_of_le h
    have hquad : n * f * (3 * c - n * f) ≤ c * (2 * c) := by
      have hsub : 3 * c - n * f = 2 * (n * f) + 3 * d := by omega
      rw [hsub, hd]
      nlinarith [Nat.zero_le (n * f * d), Nat.zero_le (d * d)]
    exact Nat.le_of_mul_le_mul_right (hquot.trans hquad) (by omega)
  rw [loop, clamped]
  rcases max_choice lo (min c (next c f (n * f : ℕ))) with heq | heq
  · rw [heq]
    exact hlo
  · rw [heq]
    exact (Nat.mul_le_mul_left n (min_le_right _ _)).trans hnext

/-- `x (3c - x)` is greatest at `x = 3c / 2`. -/
theorem mul_loop_le_of_le_three (hc : 0 < c) (h : n * f ≤ 3 * c) :
    n * loop lo c n f ≤ 9 * c / 8 ∨ loop lo c n f = lo := by
  have hnext : n * next c f (n * f : ℕ) ≤ 9 * c / 8 := by
    have hquot := mul_next_mul_le c n f
    obtain ⟨d, hd⟩ := Nat.exists_eq_add_of_le h
    have hquad : 8 * (n * f * (3 * c - n * f)) ≤ 9 * c * (2 * c) := by
      have hsub : 3 * c - n * f = d := by omega
      rw [hsub]
      have hsquare : (0 : ℤ) ≤ ((n * f : ℕ) - d : ℤ) ^ 2 := sq_nonneg _
      have hd' : (3 * c : ℤ) = (n * f : ℕ) + d := by exact_mod_cast hd
      have hquad : 8 * (((n * f : ℕ) : ℤ) * d) ≤ 9 * c * (2 * c) := by nlinarith
      exact_mod_cast hquad
    rw [Nat.le_div_iff_mul_le (by decide)]
    refine Nat.le_of_mul_le_mul_right ?_ (show 0 < 2 * c by omega)
    calc n * next c f (n * f : ℕ) * 8 * (2 * c)
        = 8 * (n * next c f (n * f : ℕ) * (2 * c)) := by ring
      _ ≤ 8 * (n * f * (3 * c - n * f)) := Nat.mul_le_mul_left 8 hquot
      _ ≤ 9 * c * (2 * c) := hquad
  by_cases hlo : min c (next c f (n * f : ℕ)) ≤ lo
  · exact Or.inr (max_eq_left hlo)
  · refine Or.inl ?_
    rw [loop, clamped, max_eq_right (by omega)]
    exact (Nat.mul_le_mul_left n (min_le_right _ _)).trans hnext

/-- How far below the fair share a rate can rest. -/
theorem mul_sub_lt (hn : 1 ≤ n) (hc : 0 < c) (h : n * f ≤ c) (hrest : loop lo c n f = f) :
    f * (c - n * f) < 2 * c := by
  have hf : f ≤ n * f := Nat.le_mul_of_pos_left f hn
  have hle : min c (next c f (n * f : ℕ)) ≤ f := (le_max_right _ _).trans hrest.le
  by_cases hcap : c ≤ next c f (n * f : ℕ)
  · -- there is one sender, and it has all of the capacity
    rw [min_eq_left hcap] at hle
    have hzero : c - n * f = 0 := by omega
    rw [hzero, Nat.mul_zero]
    omega
  · -- the quotient is `f` itself
    rw [min_eq_right (by omega), next_mul, Nat.div_le_iff_le_mul_add_pred (by omega)] at hle
    have hsplit : f * (3 * c - n * f) = f * (2 * c) + f * (c - n * f) := by
      rw [← Nat.mul_add]
      congr 1
      omega
    have hcomm : 2 * c * f = f * (2 * c) := Nat.mul_comm ..
    omega

/-- A rate that climbs and does not overshoot comes to rest. -/
theorem exists_rest (hn : 1 ≤ n) (hc : 0 < c) (hlo : n * lo ≤ c) {u : ℕ → ℕ}
    (hstart : n * u 0 ≤ c) (hstep : ∀ i, u (i + 1) = loop lo c n (u i)) :
    ∃ i, ∀ j, i ≤ j → u j = u i := by
  have hbelow : ∀ i, n * u i ≤ c := by
    intro i
    induction i with
    | zero => exact hstart
    | succ i ih =>
      rw [hstep]
      exact mul_loop_le hc hlo ih
  have hmono : Monotone u := by
    refine monotone_nat_of_le_succ fun i => ?_
    rw [hstep]
    exact le_loop hn hc (hbelow i)
  -- the greatest rate is attained, and kept
  have hbdd : BddAbove (Set.range u) := by
    refine ⟨c, ?_⟩
    rintro _ ⟨i, rfl⟩
    exact (Nat.le_mul_of_pos_left _ hn).trans (hbelow i)
  obtain ⟨i, hi⟩ := Nat.sSup_mem (Set.range_nonempty u) hbdd
  refine ⟨i, fun j hij => le_antisymm ?_ (hmono hij)⟩
  rw [hi]
  exact le_csSup hbdd ⟨j, rfl⟩

end EyeQ.Rcp
