import Mathlib.Algebra.BigOperators.Group.Finset.Piecewise
import Mathlib.Algebra.BigOperators.Group.List.Basic

/-!
# Sums of which one term changes

`sum_add_of_eq_off` compares the sums of two families that differ at one index only, and
`sum_map_write` the sums over a list that has this index once.  `sum_map_fiber` adds up a list key
by key.
-/

namespace EyeQ

/-- A write at one index moves the sum by the difference. -/
theorem sum_map_write {ι M : Type*} [DecidableEq ι] [AddCommMonoid M] {l : List ι}
    {k : ι} {g f : ι → M} (hl : l.Nodup) (hk : k ∈ l) (hf : ∀ x, x ≠ k → f x = g x) :
    (l.map f).sum + g k = (l.map g).sum + f k := by
  have hperm := List.perm_cons_erase hk
  have hrest : (l.erase k).map f = (l.erase k).map g := by
    apply List.map_congr_left
    intro x hx
    exact hf x fun hxk => hl.not_mem_erase (hxk ▸ hx)
  rw [(hperm.map f).sum_eq, (hperm.map g).sum_eq, List.map_cons, List.map_cons, List.sum_cons,
    List.sum_cons, hrest, add_comm (f k), add_right_comm, add_comm (g k)]

/-- To add up a list, one can add up the entries of each key, and then the keys. -/
theorem sum_map_fiber {ι α M : Type*} [DecidableEq ι] [AddCancelCommMonoid M]
    {l : List ι} (hl : l.Nodup) (key : α → ι) (hkey : ∀ x, key x ∈ l) (w : α → M) (xs : List α) :
    (l.map fun k => ((xs.filter (key · = k)).map w).sum).sum = (xs.map w).sum := by
  induction xs with
  | nil => simp
  | cons x xs ih =>
    have hwrite := sum_map_write (g := fun k => ((xs.filter (key · = k)).map w).sum)
      (f := fun k => (((x :: xs).filter (key · = k)).map w).sum) hl (hkey x)
      fun k hk => by
        simp only [List.filter_cons_of_neg, decide_eq_true_eq, hk.symm, not_false_eq_true]
    have hself : (((x :: xs).filter (key · = key x)).map w).sum =
        w x + ((xs.filter (key · = key x)).map w).sum := by
      rw [List.filter_cons_of_pos (by simp), List.map_cons, List.sum_cons]
    simp only [hself, ih, ← add_assoc] at hwrite
    rw [List.map_cons, List.sum_cons, add_comm (w x)]
    exact add_right_cancel hwrite

variable {ι : Type} [Fintype ι] [DecidableEq ι] {f g : ι → ℕ} {a : ι}

/-- Two families that agree off `a` have sums that differ as their terms at `a` do. -/
theorem sum_add_eq_of_eq_off (hoff : ∀ x, x ≠ a → g x = f x) :
    ∑ x, g x + f a = ∑ x, f x + g a := by
  have herase : ∑ x ∈ Finset.univ.erase a, g x = ∑ x ∈ Finset.univ.erase a, f x :=
    Finset.sum_congr rfl fun x hx => hoff x (Finset.ne_of_mem_erase hx)
  rw [← Finset.add_sum_erase _ g (Finset.mem_univ a), ← Finset.add_sum_erase _ f
    (Finset.mem_univ a), herase]
  omega

/-- A sum of which one term grows by `n`. -/
theorem sum_add_of_eq_off {n : ℕ} (hself : g a = f a + n) (hoff : ∀ x, x ≠ a → g x = f x) :
    ∑ x, g x = ∑ x, f x + n := by
  have hsum := sum_add_eq_of_eq_off hoff
  omega

end EyeQ
