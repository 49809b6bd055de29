import Mathlib.Data.Finsupp.Weight

/-!
# Ledgers

A ledger counts how often a thing is at each of the places `ι`, of which there may be infinitely
many.  `AddsUp f n` says that the thing is at finitely many places, `n` times in all.

`Exchange f g inn out` says what becomes of that sum from the ledger `f` to the ledger `g`: it grows
by `inn` and shrinks by `out`.  Things are put at a place and taken from it (`Exchange.put`,
`Exchange.take`), exchanges are composed, and what is taken and put back cancels.  In the end, a
thing that is there once is at exactly one place (`AddsUp.exists_unique`).
-/

namespace EyeQ.Ledger

variable {ι : Type*} {f g h : ι → ℕ} {m n : ℕ}

/-- The entries of the ledger add up to `n`. -/
def AddsUp (f : ι → ℕ) (n : ℕ) : Prop := ∃ F : ι →₀ ℕ, ⇑F = f ∧ F.degree = n

theorem addsUp_zero : AddsUp (0 : ι → ℕ) 0 := ⟨0, rfl, map_zero _⟩

theorem AddsUp.le (hf : AddsUp f n) (i : ι) : f i ≤ n := by
  obtain ⟨F, rfl, rfl⟩ := hf
  exact F.le_degree i

/-- A thing that is there once is at exactly one place. -/
theorem AddsUp.exists_unique (hf : AddsUp f 1) : ∃ i, f i = 1 ∧ ∀ j, j ≠ i → f j = 0 := by
  obtain ⟨F, rfl, hF⟩ := hf
  obtain ⟨i, rfl⟩ : F ∈ Set.range fun i : ι => Finsupp.single i 1 := by
    rw [Finsupp.range_single_one]
    exact hF
  exact ⟨i, Finsupp.single_eq_same, fun j hj => Finsupp.single_eq_of_ne hj⟩

section

variable [DecidableEq ι]

theorem AddsUp.add_single (hf : AddsUp f n) (i : ι) (m : ℕ) :
    AddsUp (f + Pi.single i m) (n + m) := by
  obtain ⟨F, rfl, rfl⟩ := hf
  refine ⟨F + Finsupp.single i m, ?_, ?_⟩
  · rw [Finsupp.coe_add, Finsupp.single_eq_pi_single]
  · rw [map_add, Finsupp.degree_single]

theorem AddsUp.of_add_single {i : ι} (hf : AddsUp (f + Pi.single i m) n) :
    ∃ n', AddsUp f n' ∧ n = n' + m := by
  obtain ⟨F, hF, rfl⟩ := hf
  -- the entry at `i` is at least `m`, so it can be taken away
  have hle : Finsupp.single i m ≤ F := by
    intro j
    have hj := congrFun hF j
    rw [Finsupp.single_eq_pi_single, hj]
    exact Nat.le_add_left _ _
  have hsub : F - Finsupp.single i m + Finsupp.single i m = F := tsub_add_cancel_of_le hle
  refine ⟨(F - Finsupp.single i m).degree, ⟨F - Finsupp.single i m, ?_, rfl⟩, ?_⟩
  · ext j
    rw [Finsupp.tsub_apply, hF, Finsupp.single_eq_pi_single]
    exact Nat.add_sub_cancel _ _
  · conv_lhs => rw [← hsub]
    rw [map_add, Finsupp.degree_single]

end

/-! ### Exchanges -/

/-- From `f` to `g` the sum grows by `inn` and shrinks by `out`. -/
def Exchange (f g : ι → ℕ) (inn out : ℕ) : Prop :=
  ∀ n, AddsUp f n → ∃ n', AddsUp g n' ∧ n' + out = n + inn

namespace Exchange

variable {inn out inn' out' a b : ℕ}

theorem refl (f : ι → ℕ) (a : ℕ) : Exchange f f a a := fun n hn => ⟨n, hn, rfl⟩

theorem trans (h₁ : Exchange f g inn out) (h₂ : Exchange g h inn' out') :
    Exchange f h (inn + inn') (out + out') := by
  intro n hn
  obtain ⟨n', hn', hsum⟩ := h₁ n hn
  obtain ⟨n'', hn'', hsum'⟩ := h₂ n' hn'
  exact ⟨n'', hn'', by omega⟩

/-- The same exchange, counted otherwise. -/
theorem congr (hfg : Exchange f g inn out) (hcount : inn + b = a + out) : Exchange f g a b := by
  intro n hn
  obtain ⟨n', hn', hsum⟩ := hfg n hn
  exact ⟨n', hn', by omega⟩

variable [DecidableEq ι]

theorem put (f : ι → ℕ) (i : ι) (m : ℕ) : Exchange f (f + Pi.single i m) m 0 :=
  fun n hn => ⟨n + m, hn.add_single i m, rfl⟩

theorem take (f : ι → ℕ) (i : ι) (m : ℕ) : Exchange (f + Pi.single i m) f 0 m := by
  intro n hn
  obtain ⟨n', hn', hsum⟩ := hn.of_add_single
  exact ⟨n', hn', hsum.symm⟩

end Exchange

end EyeQ.Ledger
