import EyeQ.Machine.Run
import EyeQ.Sum.Basic
import Mathlib.Algebra.Order.BigOperators.Ring.Finset
import Mathlib.Algebra.Group.Action.Defs
import Mathlib.Tactic.Ring

/-!
# Token pools with hoards

A pool of tokens is refilled as time passes, up to a cap.  Users `ι` spend tokens, but not from the
pool: a user whose hoard is low takes the whole pool into its hoard, and spends from there.  So up
to a cap's worth of tokens may sit in the pool, and some more in every hoard, before anything is
spent.

`Step T` is one change of a pool under the terms `T`.  In an interval of time the users can spend
what the refills of the interval bring, and what was there before.  The first refill may bring the
tokens of a long time before the interval, but not more than the cap; the later ones bring at most
`rate / scale` for each unit of time (`conserved_path`).  What was there before is bounded by the
cap and the level at which a hoard counts as low (`stocked_path`).  `spent_le` puts them together:

  `spent ≤ rate * (stop - start) / scale + (n + 2) * cap + n * low`

for `n` users, whatever happened before the interval.
-/

namespace EyeQ.TokenPool

open Machine

/-- A pool, the hoards of its users, what they have spent, and the time of the last refill. -/
structure Pool (ι : Type) where
  total : ℕ
  hoard : ι → ℕ
  spent : ι → ℕ
  last : ℕ

/-- The terms of a pool in an interval of time. -/
structure Terms where
  /-- `rate` tokens come in `scale` units of time. -/
  rate : ℕ
  scale : ℕ
  cap : ℕ
  /-- A user with more than this does not take from the pool. -/
  low : ℕ
  /-- Refills are made between these times. -/
  start : ℕ
  stop : ℕ

variable {ι : Type} {T : Terms}

/-- One change of a pool. -/
inductive Step (T : Terms) (x x' : Pool ι) : Prop
  | idle (h : x' = x)
  | refill (hhoard : x'.hoard = x.hoard) (hspent : x'.spent = x.spent) (hcap : x'.total ≤ T.cap)
      (hlast : x.last ≤ x'.last) (hstart : T.start ≤ x'.last) (hstop : x'.last ≤ T.stop)
      (hgain : T.scale * x'.total ≤ T.scale * x.total + T.rate * (x'.last - x.last))
  | take (i : ι) (hlow : x.hoard i ≤ T.low) (htotal : x'.total = 0)
      (hself : x'.hoard i ≤ x.hoard i + x.total) (hother : ∀ j, j ≠ i → x'.hoard j = x.hoard j)
      (hspent : x'.spent = x.spent) (hlast : x'.last = x.last)
  | spend (i : ι) (n : ℕ) (hself : x'.hoard i + n = x.hoard i)
      (hother : ∀ j, j ≠ i → x'.hoard j = x.hoard j) (hpaid : x'.spent i = x.spent i + n)
      (hspent : ∀ j, j ≠ i → x'.spent j = x.spent j) (htotal : x'.total = x.total)
      (hlast : x'.last = x.last)

/-! ### What there can be at any time -/

/-- The pool is not over the cap, and no hoard over what it can hold when it takes a full pool. -/
def Stocked (T : Terms) (x : Pool ι) : Prop :=
  x.total ≤ T.cap ∧ ∀ i, x.hoard i ≤ T.cap + T.low

theorem stocked_step {x x' : Pool ι} (hstep : Step T x x') (h : Stocked T x) : Stocked T x' := by
  obtain ⟨htotal', hhoard'⟩ := h
  cases hstep with
  | idle h =>
    subst h
    exact ⟨htotal', hhoard'⟩
  | refill hhoard hspent hcap hlast hstart hstop hgain =>
    refine ⟨hcap, fun i => ?_⟩
    rw [hhoard]
    exact hhoard' i
  | take i hlow htotal hself hother hspent hlast =>
    refine ⟨by omega, fun j => ?_⟩
    by_cases hj : j = i
    · subst hj
      omega
    · rw [hother j hj]
      exact hhoard' j
  | spend i n hself hother hpaid hspent htotal hlast =>
    refine ⟨by omega, fun j => ?_⟩
    by_cases hj : j = i
    · subst hj
      have := hhoard' j
      omega
    · rw [hother j hj]
      exact hhoard' j

theorem stocked_path {x x' : Pool ι} (hpath : IsPath (Step T) x x') (h : Stocked T x) :
    Stocked T x' :=
  path_invariant (P := Stocked T) (fun x x' (hstep : Step T x x') => stocked_step hstep) hpath h

/-! ### What the refills of an interval bring -/

variable [Fintype ι] [DecidableEq ι]

/-- The tokens that exist or have been spent. -/
def Pool.value (x : Pool ι) : ℕ := x.total + ∑ i, x.hoard i + ∑ i, x.spent i

/-- What is known of a pool that had the value `v` when the interval began: there has been no refill
since, or the refills have brought at most a cap and what the time since `start` brings. -/
def Conserved (T : Terms) (v : ℕ) (x : Pool ι) : Prop :=
  x.value ≤ v ∨ (T.start ≤ x.last ∧ x.last ≤ T.stop ∧
    T.scale * x.value + T.rate * T.start ≤ T.scale * (v + T.cap) + T.rate * x.last)

omit [DecidableEq ι] in
/-- A change that brings no tokens. -/
theorem Conserved.of_le {v : ℕ} {x x' : Pool ι} (h : Conserved T v x) (hvalue : x'.value ≤ x.value)
    (hlast : x'.last = x.last) : Conserved T v x' := by
  rcases h with h | ⟨hstart, hstop, hle⟩
  · exact Or.inl (hvalue.trans h)
  · have hscale := Nat.mul_le_mul_left T.scale hvalue
    rw [← hlast] at hstart hstop hle
    exact Or.inr ⟨hstart, hstop, by omega⟩

theorem conserved_step {v : ℕ} {x x' : Pool ι} (hstep : Step T x x') (h : Conserved T v x) :
    Conserved T v x' := by
  cases hstep with
  | idle h' =>
    subst h'
    exact h
  | refill hhoard hspent hcap hlast hstart hstop hgain =>
    refine Or.inr ⟨hstart, hstop, ?_⟩
    have hvalue : x'.value + x.total = x.value + x'.total := by
      unfold Pool.value
      rw [hhoard, hspent]
      omega
    rcases h with h | ⟨hstart₀, -, hle⟩
    · -- the first refill of the interval: the tokens it brings are under the cap
      have hscale : T.scale * x'.value ≤ T.scale * (v + T.cap) :=
        Nat.mul_le_mul_left _ (by omega)
      have htime := Nat.mul_le_mul_left T.rate hstart
      omega
    · -- a later one brings what the time since the one before it brings
      have hscale : T.scale * x'.value + T.scale * x.total =
          T.scale * x.value + T.scale * x'.total := by
        rw [← Nat.mul_add, hvalue, Nat.mul_add]
      have htime : T.rate * (x'.last - x.last) + T.rate * x.last = T.rate * x'.last := by
        rw [← Nat.mul_add, Nat.sub_add_cancel hlast]
      omega
  | take i hlow htotal hself hother hspent hlast =>
    refine h.of_le ?_ hlast
    have hsum := sum_add_eq_of_eq_off hother
    unfold Pool.value
    rw [hspent]
    omega
  | spend i n hself hother hpaid hspent htotal hlast =>
    refine h.of_le ?_ hlast
    have hsum := sum_add_eq_of_eq_off hother
    have hpaid' := sum_add_of_eq_off hpaid hspent
    unfold Pool.value
    omega

theorem conserved_path {v : ℕ} {x x' : Pool ι} (hpath : IsPath (Step T) x x')
    (h : Conserved T v x) : Conserved T v x' :=
  path_invariant (P := Conserved T v)
    (fun x x' (hstep : Step T x x') => conserved_step hstep) hpath h

/-! ### Conformance -/

/-- **Conformance.**  What the users spend in an interval. -/
theorem spent_le {x x' : Pool ι} (hscale : 0 < T.scale) (hpath : IsPath (Step T) x x')
    (hstocked : Stocked T x) :
    ∑ i, x'.spent i ≤ ∑ i, x.spent i + (T.rate * (T.stop - T.start)) / T.scale
      + (Fintype.card ι + 2) * T.cap + Fintype.card ι * T.low := by
  obtain ⟨htotal, hhoard⟩ := hstocked
  have hhoards : ∑ i, x.hoard i ≤ Fintype.card ι * (T.cap + T.low) := by
    refine (Finset.sum_le_sum fun i _ => hhoard i).trans ?_
    rw [Finset.sum_const, Finset.card_univ, smul_eq_mul]
  have hspent : ∑ i, x'.spent i ≤ x'.value := Nat.le_add_left _ _
  have hvalue : x.value ≤ ∑ i, x.spent i + T.cap + Fintype.card ι * (T.cap + T.low) := by
    unfold Pool.value
    omega
  have hexpand : Fintype.card ι * (T.cap + T.low) + 2 * T.cap
      = (Fintype.card ι + 2) * T.cap + Fintype.card ι * T.low := by ring
  have hgain : x'.value ≤ x.value + T.cap + (T.rate * (T.stop - T.start)) / T.scale := by
    rcases conserved_path hpath (Or.inl le_rfl : Conserved T x.value x) with
      h | ⟨hstart, hstop, hle⟩
    · exact h.trans ((Nat.le_add_right _ _).trans (Nat.le_add_right _ _))
    · have htime : T.rate * x'.last ≤ T.rate * T.start + T.rate * (T.stop - T.start) := by
        rw [← Nat.mul_add, Nat.add_sub_cancel' (hstart.trans hstop)]
        exact Nat.mul_le_mul_left _ hstop
      have hscaled : T.scale * x'.value
          ≤ T.scale * (x.value + T.cap) + T.rate * (T.stop - T.start) := by omega
      calc x'.value = (T.scale * x'.value) / T.scale := (Nat.mul_div_cancel_left _ hscale).symm
        _ ≤ (T.scale * (x.value + T.cap) + T.rate * (T.stop - T.start)) / T.scale :=
            Nat.div_le_div_right hscaled
        _ = x.value + T.cap + (T.rate * (T.stop - T.start)) / T.scale :=
            Nat.mul_add_div hscale _ _
  omega

/-! ### A higher cap -/

omit [Fintype ι] [DecidableEq ι] in
theorem Step.raise {x x' : Pool ι} {cap : ℕ} (hcap : T.cap ≤ cap) (h : Step T x x') :
    Step { T with cap := cap } x x' := by
  cases h with
  | idle h => exact .idle h
  | refill hhoard hspent hle hlast hstart hstop hgain =>
    exact .refill hhoard hspent (hle.trans hcap) hlast hstart hstop hgain
  | take i hlow htotal hself hother hspent hlast =>
    exact .take i hlow htotal hself hother hspent hlast
  | spend i n hself hother hpaid hspent htotal hlast =>
    exact .spend i n hself hother hpaid hspent htotal hlast

/-- Conformance, for an interval that begins with tokens from better times. -/
theorem spent_le_of_cap {x x' : Pool ι} {cap : ℕ} (hcap : T.cap ≤ cap) (hscale : 0 < T.scale)
    (hpath : IsPath (Step T) x x') (hstocked : Stocked { T with cap := cap } x) :
    ∑ i, x'.spent i ≤ ∑ i, x.spent i + (T.rate * (T.stop - T.start)) / T.scale
      + (Fintype.card ι + 2) * cap + Fintype.card ι * T.low :=
  spent_le (T := { T with cap := cap }) hscale
    (Relation.ReflTransGen.mono (fun _ _ h => h.raise hcap) _ _ hpath) hstocked

end EyeQ.TokenPool
