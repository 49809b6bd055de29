import Mathlib.Algebra.BigOperators.Finprod
import Mathlib.Algebra.Order.BigOperators.Group.Finset
import Mathlib.Algebra.Order.Group.Nat

/-!
# Sums of a family with finitely many terms

How the sum `∑ᶠ x, f x` of a family of natural numbers changes when its terms fall, but for one or
two of them, of which the gain is bounded.
-/

namespace EyeQ

open Function

variable {ι : Type*} {f g : ι → ℕ}

/-- Both sums are sums over one finite set, which has `s` in it. -/
theorem exists_finset_finsum_eq (hf : (support f).Finite) (hg : (support g).Finite) (s : Finset ι) :
    ∃ T : Finset ι, s ⊆ T ∧ ∑ᶠ x, f x = ∑ x ∈ T, f x ∧ ∑ᶠ x, g x = ∑ x ∈ T, g x := by
  classical
  refine ⟨hf.toFinset ∪ hg.toFinset ∪ s, Finset.subset_union_right, ?_, ?_⟩
  · refine finsum_eq_sum_of_support_subset f fun x hx => ?_
    simp [mem_support.1 hx]
  · refine finsum_eq_sum_of_support_subset g fun x hx => ?_
    simp [mem_support.1 hx]

/-- The terms at `a` and `b` together fall by `n`, and no other grows. -/
theorem finsum_add_le_of_le_off_two (hf : (support f).Finite) (hg : (support g).Finite) {a b : ι}
    (hab : a ≠ b) {n : ℕ} (hoff : ∀ x, x ≠ a → x ≠ b → g x ≤ f x)
    (hself : g a + g b + n ≤ f a + f b) :
    ∑ᶠ x, g x + n ≤ ∑ᶠ x, f x := by
  classical
  obtain ⟨T, hsub, hfT, hgT⟩ := exists_finset_finsum_eq hf hg {a, b}
  have ha : a ∈ T := hsub (by simp)
  have hb : b ∈ T.erase a := Finset.mem_erase.2 ⟨hab.symm, hsub (by simp)⟩
  have hrest : ∑ x ∈ (T.erase a).erase b, g x ≤ ∑ x ∈ (T.erase a).erase b, f x := by
    refine Finset.sum_le_sum fun x hx => ?_
    exact hoff x (Finset.ne_of_mem_erase (Finset.mem_of_mem_erase hx)) (Finset.ne_of_mem_erase hx)
  rw [hfT, hgT, ← Finset.add_sum_erase T g ha, ← Finset.add_sum_erase T f ha,
    ← Finset.add_sum_erase _ g hb, ← Finset.add_sum_erase _ f hb]
  omega

/-- The term at `a` falls by `n`, and no other grows. -/
theorem finsum_add_le_of_le (hf : (support f).Finite) (hg : (support g).Finite) {a : ι} {n : ℕ}
    (hoff : ∀ x, x ≠ a → g x ≤ f x) (hself : g a + n ≤ f a) : ∑ᶠ x, g x + n ≤ ∑ᶠ x, f x := by
  classical
  obtain ⟨T, hsub, hfT, hgT⟩ := exists_finset_finsum_eq hf hg {a}
  have ha : a ∈ T := hsub (by simp)
  have hrest : ∑ x ∈ T.erase a, g x ≤ ∑ x ∈ T.erase a, f x :=
    Finset.sum_le_sum fun x hx => hoff x (Finset.ne_of_mem_erase hx)
  rw [hfT, hgT, ← Finset.add_sum_erase T g ha, ← Finset.add_sum_erase T f ha]
  omega

end EyeQ
