import EyeQ.Rcp.Basic
import EyeQ.Tx.Tick

/-!
# The rate of a tx context: does the tick react in the right direction?

`iso_txc_tick` moves the rate of the context by the step `Rcp.next`, with the capacity
`ISO_MAX_TX_RATE` and in `u32` arithmetic.  `newRate` is what it computes.  The step is the one that
is meant if the product fits, which for a rate of up to `C` takes `3 C² < 2 ^ 32`, and if the device
has not sent at more than `3 C` (`newRate_eq_clamped`).  With a faster link an idle device makes the
rate fall (`newRate_of_overflow`); beyond `3 C` the factor wraps, and the rate jumps to the top
(`newRate_of_wrap`).  `isoTxcTick_reacts_iff` says that these are the only exceptions.
-/

namespace EyeQ.TxTick

open Machine

variable {C : Type} {p : Params}

/-! ### One tick -/

/-- The microseconds since the last tick. -/
def elapsed (now : ℕ) (t : TxTick C) : ℕ := u64OfInt (ktimeUsDelta now t.txcLastUpdateTime)

/-- A tick is due at `now`, and the time since the last one is not zero. -/
structure Due (p : Params) (now : ℕ) (t : TxTick C) : Prop where
  interval_le : p.isoTxcUpdateIntervalUs ≤ t.elapsed now
  elapsed_pos : 0 < t.elapsed now

/-- The `tx_rate` that a tick at `now` measures. -/
def measured (online : List C) (now : ℕ) (txBytes : C → ℕ) (t : TxTick C) : ℕ :=
  u32 (u64 (sub64 (u64 (online.map txBytes).sum) t.txBytes * 8) / t.elapsed now)

/-- The rate that a tick computes from the old rate and the measured one. -/
def newRate (p : Params) (rate txRate : ℕ) : ℕ :=
  max p.isoMinRfair (min p.isoMaxTxRate
    (u32 (rate * u32OfInt (3 * p.isoMaxTxRate - txRate)) / u32 (p.isoMaxTxRate * 2)))

/-- With what the factor is, for this measured rate. -/
theorem newRate_of_factor {rate txRate factor : ℕ} (hmax : 3 * p.isoMaxTxRate < 2 ^ 31)
    (hfactor : u32OfInt ((3 * p.isoMaxTxRate : ℕ) - txRate) = factor) :
    newRate p rate txRate = max p.isoMinRfair (min p.isoMaxTxRate
      (u32 (rate * factor) / (p.isoMaxTxRate * 2))) := by
  rw [newRate, ← hfactor, u32_of_lt (n := p.isoMaxTxRate * 2) (by omega)]
  push_cast
  rfl

/-- The loop over the classes divides by the time only, and leaves the rate of the context alone. -/
theorem tickClass_keeps (online : List C) {dt : ℕ} (hdt : 0 < dt) (t : TxTick C) (k : ℕ) :
    Ends (fun t' => t'.rate = t.rate ∧ t'.txRate = t.txRate) (fun _ => False)
      (tickClass p online dt t k) := by
  have hmeasured : ∀ bytes last,
      Ends (fun _ => True) (fun _ => False) (measuredRate bytes last dt) := by
    intro bytes last
    rw [measuredRate, udiv_of_pos _ hdt]
    trivial
  exact (hmeasured _ _).bind fun _ _ => ⟨rfl, rfl⟩

theorem measuredRate_eq {now : ℕ} {t : TxTick C} (hdue : Due p now t) (online : List C)
    (txBytes : C → ℕ) :
    measuredRate (u64 (online.map txBytes).sum) t.txBytes (t.elapsed now)
      = .ok (t.measured online now txBytes) := by
  rw [measuredRate, udiv_of_pos _ hdue.elapsed_pos]
  rfl

theorem isoTxcTick_eq_tick {now : ℕ} {t : TxTick C} (hdue : Due p now t) (online : List C)
    (txBytes : C → ℕ) :
    isoTxcTick p online now true txBytes t = tick p online txBytes now (t.elapsed now) t := by
  have hdue' : ¬ (t.elapsed now < p.isoTxcUpdateIntervalUs ∨ ¬ true = true) := by
    simpa using hdue.interval_le
  exact if_neg hdue'

/-- A tick ends, with the measured rate and the new rate. -/
theorem isoTxcTick_of_pos {now : ℕ} {t : TxTick C} (hdue : Due p now t) (hC : 0 < p.isoMaxTxRate)
    (hmax : 3 * p.isoMaxTxRate < 2 ^ 31) (online : List C) (txBytes : C → ℕ) :
    ∃ t', isoTxcTick p online now true txBytes t = .ok t' ∧
      t'.txRate = t.measured online now txBytes ∧
      t'.rate = newRate p t.rate (t.measured online now txBytes) := by
  have hnext : ∀ x, nextRate p t.rate x = .ok (newRate p t.rate x) := by
    intro x
    have hdiv : 0 < u32 (p.isoMaxTxRate * 2) := by
      rw [u32_of_lt (by omega)]
      omega
    unfold nextRate
    rw [udiv_of_pos _ hdiv]
    rfl
  have hloop : ∀ t₀ : TxTick C,
      Ends (fun t' => t'.rate = t₀.rate ∧ t'.txRate = t₀.txRate) (fun _ => False)
        (t₀.ctx.txcList.foldlM (tickClass p online (t.elapsed now)) t₀) := by
    intro t₀
    refine runE_ends (P := fun t' : TxTick C => t'.rate = t₀.rate ∧ t'.txRate = t₀.txRate)
      (tickClass p online (t.elapsed now)) (fun t' k (_ : True) ht => ?_)
      ⟨rfl, rfl⟩ fun _ _ => trivial
    refine (tickClass_keeps online hdue.elapsed_pos t' k).mono (fun t'' h => ?_) fun _ he => he
    exact ⟨h.1.trans ht.1, h.2.trans ht.2⟩
  rw [isoTxcTick_eq_tick hdue, tick, measuredRate_eq hdue]
  show ∃ t', (nextRate p t.rate _ >>= _) = .ok t' ∧ _
  rw [hnext]
  obtain ⟨t', heq, hrate, htx⟩ := (hloop { t with
    txcLastUpdateTime := now
    txBytes := u64 (online.map txBytes).sum
    txRate := t.measured online now txBytes
    rate := newRate p t.rate (t.measured online now txBytes) }).exists_ok
  exact ⟨t', heq, htx, hrate⟩

/-- With a capacity of zero it divides by zero. -/
theorem isoTxcTick_of_zero {now : ℕ} {t : TxTick C} (hdue : Due p now t) (hC : p.isoMaxTxRate = 0)
    (online : List C) (txBytes : C → ℕ) (t' : TxTick C) :
    isoTxcTick p online now true txBytes t ≠ .ok t' := by
  have hnext : ∀ x, nextRate p t.rate x = .error .divide := by
    intro x
    unfold nextRate
    rw [hC]
    rfl
  rw [isoTxcTick_eq_tick hdue, tick, measuredRate_eq hdue]
  show (nextRate p t.rate _ >>= _) ≠ .ok t'
  rw [hnext]
  exact error_ne_ok _ _

/-! ### The arithmetic of the step -/

section Step

variable {rate txRate : ℕ}

theorem newRate_eq_clamped (hmax : 3 * p.isoMaxTxRate < 2 ^ 31)
    (hfits : 3 * p.isoMaxTxRate ^ 2 < 2 ^ 32) (hrate : rate ≤ p.isoMaxTxRate)
    (htx : txRate ≤ 3 * p.isoMaxTxRate) :
    newRate p rate txRate
      = Rcp.clamped p.isoMinRfair p.isoMaxTxRate p.isoMaxTxRate rate txRate := by
  have hprod : rate * (3 * p.isoMaxTxRate - txRate) < 2 ^ 32 := by
    calc rate * (3 * p.isoMaxTxRate - txRate)
        ≤ p.isoMaxTxRate * (3 * p.isoMaxTxRate) := Nat.mul_le_mul hrate (Nat.sub_le ..)
      _ = 3 * p.isoMaxTxRate ^ 2 := by ring
      _ < 2 ^ 32 := hfits
  have hfactor : (3 * (p.isoMaxTxRate : ℤ) - txRate).toNat = 3 * p.isoMaxTxRate - txRate := by omega
  rw [newRate_of_factor hmax (u32OfInt_sub_of_le htx (by omega)), u32_of_lt hprod,
    Rcp.clamped, Rcp.next, hfactor, Nat.mul_comm p.isoMaxTxRate 2]

theorem newRate_of_eq (h : p.isoMinRfair = p.isoMaxTxRate) (rate txRate : ℕ) :
    newRate p rate txRate = p.isoMaxTxRate := by
  rw [newRate, h]
  exact max_eq_left (min_le_left _ _)

/-- At `3 C` the factor is zero. -/
theorem newRate_three_mul (hmax : 3 * p.isoMaxTxRate < 2 ^ 31) (rate : ℕ) :
    newRate p rate (3 * p.isoMaxTxRate) = p.isoMinRfair := by
  rw [newRate_of_factor hmax (u32OfInt_sub_of_le le_rfl (by omega)), Nat.sub_self,
    Nat.mul_zero, u32, Nat.zero_mod, Nat.zero_div]
  simp

/-- Just above it the factor is `2 ^ 32 - 1`. -/
theorem newRate_of_wrap (hmin : p.isoMinRfair ≤ p.isoMaxTxRate) (hpos : 0 < p.isoMaxTxRate)
    (hmax : 3 * p.isoMaxTxRate < 2 ^ 31) (hfits : 3 * p.isoMaxTxRate ^ 2 < 2 ^ 32) :
    newRate p p.isoMaxTxRate (3 * p.isoMaxTxRate + 1) = p.isoMaxTxRate := by
  have hwrap : u32 (p.isoMaxTxRate * (2 ^ 32 - 1)) = 2 ^ 32 - p.isoMaxTxRate := by
    unfold u32
    omega
  have hquot : p.isoMaxTxRate ≤ (2 ^ 32 - p.isoMaxTxRate) / (p.isoMaxTxRate * 2) := by
    have hsquare : p.isoMaxTxRate ≤ p.isoMaxTxRate ^ 2 := Nat.le_self_pow (by decide) _
    have hdouble : p.isoMaxTxRate * (p.isoMaxTxRate * 2) = 2 * p.isoMaxTxRate ^ 2 := by ring
    rw [Nat.le_div_iff_mul_le (by omega)]
    omega
  rw [newRate_of_factor hmax (u32OfInt_sub_succ _), hwrap, min_eq_left hquot, max_eq_right hmin]

/-- What is left of a triple that has wrapped is less than the double. -/
theorem u32_three_mul_lt {n : ℕ} (h : 2 ^ 32 ≤ 3 * n) : u32 (3 * n) < 2 * n := by
  have hwraps : 1 ≤ 3 * n / 2 ^ 32 := Nat.div_pos h (by decide)
  unfold u32
  omega

/-- If the product does not fit, an idle device makes the rate fall. -/
theorem newRate_of_overflow (hmin : p.isoMinRfair < p.isoMaxTxRate)
    (hmax : 3 * p.isoMaxTxRate < 2 ^ 31) (hover : 2 ^ 32 ≤ 3 * p.isoMaxTxRate ^ 2) :
    newRate p p.isoMaxTxRate 0 < p.isoMaxTxRate := by
  have hprod : p.isoMaxTxRate * (3 * p.isoMaxTxRate) = 3 * p.isoMaxTxRate ^ 2 := by ring
  have hquot : u32 (3 * p.isoMaxTxRate ^ 2) / (p.isoMaxTxRate * 2) < p.isoMaxTxRate := by
    have hdouble : p.isoMaxTxRate * (p.isoMaxTxRate * 2) = 2 * p.isoMaxTxRate ^ 2 := by ring
    rw [Nat.div_lt_iff_lt_mul (by omega), hdouble]
    exact u32_three_mul_lt hover
  rw [newRate_of_factor hmax (u32OfInt_sub_of_le (Nat.zero_le _) (by omega)), Nat.sub_zero, hprod]
  exact max_lt hmin ((min_le_right _ _).trans_lt hquot)

/-- When the step goes in the right direction. -/
theorem steers_newRate_iff {limit : ℕ} (hmin : p.isoMinRfair ≤ p.isoMaxTxRate)
    (hpos : 0 < p.isoMaxTxRate) (hmax : 3 * p.isoMaxTxRate < 2 ^ 31) :
    Rcp.Steers p.isoMinRfair p.isoMaxTxRate limit (newRate p) ↔
      p.isoMinRfair = p.isoMaxTxRate ∨
        3 * p.isoMaxTxRate ^ 2 < 2 ^ 32 ∧ limit ≤ 3 * p.isoMaxTxRate := by
  constructor
  · intro h
    by_contra hnot
    rw [not_or] at hnot
    have hlt : p.isoMinRfair < p.isoMaxTxRate := by omega
    by_cases hfits : 3 * p.isoMaxTxRate ^ 2 < 2 ^ 32
    · exact Rcp.not_steers_of_wrap hlt (by omega) (newRate_three_mul hmax _)
        (newRate_of_wrap hmin hpos hmax hfits) h
    · have hfalls := newRate_of_overflow hlt hmax (by omega)
      have hge := h.ge hmin le_rfl (Nat.zero_le limit) (Nat.zero_le _)
      omega
  · rintro (heq | ⟨hfits, hlimit⟩)
    · rw [heq]
      exact Rcp.steers_of_eq (newRate_of_eq heq)
    · exact Rcp.steers_of_clamped hpos fun f x hf hx =>
        newRate_eq_clamped hmax hfits hf (hx.trans hlimit)

end Step

/-! ### The tick reacts -/

/-- Every tick that measures a rate of up to `limit` ends and moves the rate of the context in the
right direction: not up at or above capacity, not down at or below it, and no further up than after
a tick from the same rate that has measured less. -/
def Reacts (C : Type) (p : Params) (limit : ℕ) : Prop :=
  ∀ (online : List C) (now : ℕ) (txBytes : C → ℕ) (t : TxTick C), Due p now t →
    p.isoMinRfair ≤ t.rate → t.rate ≤ p.isoMaxTxRate → t.measured online now txBytes ≤ limit →
    ∃ t', isoTxcTick p online now true txBytes t = .ok t' ∧
      t'.txRate = t.measured online now txBytes ∧
      (p.isoMaxTxRate ≤ t'.txRate → t'.rate ≤ t.rate) ∧
      (t'.txRate ≤ p.isoMaxTxRate → t.rate ≤ t'.rate) ∧
      ∀ (online₀ : List C) (now₀ : ℕ) (txBytes₀ : C → ℕ) (t₀ t₀' : TxTick C), Due p now₀ t₀ →
        t₀.rate = t.rate → isoTxcTick p online₀ now₀ true txBytes₀ t₀ = .ok t₀' →
        t₀'.txRate ≤ t'.txRate → t'.rate ≤ t₀'.rate

/-- A context without classes, with the rate `rate` and nothing sent. -/
def idle (C : Type) (p : Params) (rate : ℕ) : TxTick C := { init p 0 with rate := rate }

/-- Any `u32` can be measured. -/
theorem exists_measured (C : Type) [Inhabited C] (hint : p.isoTxcUpdateIntervalUs < 2 ^ 31)
    (rate : ℕ) {x : ℕ} (hx : x < 2 ^ 32) :
    ∃ (now : ℕ) (txBytes : C → ℕ), Due p now (idle C p rate) ∧
      (idle C p rate).measured [default] now txBytes = x := by
  -- `8 k` microseconds are long enough
  obtain ⟨k, hk⟩ : ∃ k, k = p.isoTxcUpdateIntervalUs / 8 + 1 := ⟨_, rfl⟩
  have helapsed : (idle C p rate).elapsed (1000 * (8 * k)) = 8 * k := by
    unfold elapsed u64OfInt ktimeUsDelta
    show (((1000 * (8 * k) : ℕ) - (0 : ℕ) : ℤ) / 1000 % 2 ^ 64).toNat = 8 * k
    omega
  have hprod : x * k * 8 < 2 ^ 64 := by
    calc x * k * 8 ≤ 2 ^ 32 * 2 ^ 28 * 8 :=
          Nat.mul_le_mul_right 8 (Nat.mul_le_mul hx.le (by omega))
      _ < 2 ^ 64 := by decide
  refine ⟨1000 * (8 * k), fun _ => x * k, ⟨by omega, by omega⟩, ?_⟩
  have hsent : sub64 (u64 ([default].map fun _ : C => x * k).sum) (idle C p rate).txBytes =
      x * k := by
    show sub64 (u64 (x * k + 0)) 0 = x * k
    rw [Nat.add_zero, u64_of_lt (by omega), sub64_of_le (Nat.zero_le _) (by omega), Nat.sub_zero]
  rw [measured, hsent, helapsed, u64_of_lt hprod]
  have hquot : x * k * 8 / (8 * k) = x := by
    rw [show x * k * 8 = x * (8 * k) by ring]
    exact Nat.mul_div_cancel _ (by omega)
  rw [hquot, u32_of_lt hx]

/-- **When the tick reacts in the right direction.**  For all rates of the context and all measured
rates of up to `limit` it does so exactly if the capacity is not zero and there is nothing to
control, or the product of the step fits a `u32` and nothing above `3 C` is measured. -/
theorem isoTxcTick_reacts_iff [Inhabited C] {limit : ℕ} (hmin : p.isoMinRfair ≤ p.isoMaxTxRate)
    (hmax : 3 * p.isoMaxTxRate < 2 ^ 31) (hint : p.isoTxcUpdateIntervalUs < 2 ^ 31)
    (hlimit : limit < 2 ^ 32) :
    Reacts C p limit ↔ 0 < p.isoMaxTxRate ∧
      (p.isoMinRfair = p.isoMaxTxRate ∨
        3 * p.isoMaxTxRate ^ 2 < 2 ^ 32 ∧ limit ≤ 3 * p.isoMaxTxRate) := by
  by_cases hpos : 0 < p.isoMaxTxRate
  · rw [and_iff_right hpos, ← steers_newRate_iff hmin hpos hmax]
    constructor
    · intro h
      -- the tick at the rate `f` that measures `x`
      have htick : ∀ f x, p.isoMinRfair ≤ f → f ≤ p.isoMaxTxRate → x ≤ limit →
          (p.isoMaxTxRate ≤ x → newRate p f x ≤ f) ∧ (x ≤ p.isoMaxTxRate → f ≤ newRate p f x) ∧
            ∀ y ≤ x, newRate p f x ≤ newRate p f y := by
        intro f x hlo hhi hx
        obtain ⟨now, txBytes, hdue, hmeas⟩ := exists_measured C hint f (hx.trans_lt hlimit)
        obtain ⟨t', htick, htx, hle, hge, hanti⟩ :=
          h [default] now txBytes (idle C p f) hdue hlo hhi (by omega)
        obtain ⟨t'', htick', -, hrate⟩ := isoTxcTick_of_pos hdue hpos hmax [default] txBytes
        obtain rfl : t' = t'' := Except.ok.inj (htick.symm.trans htick')
        rw [htx, hmeas] at hle hge hanti
        rw [hmeas] at hrate
        have hf : (idle C p f).rate = f := rfl
        rw [hf] at hrate hle hge
        rw [hrate] at hle hge hanti
        refine ⟨hle, hge, fun y hy => ?_⟩
        obtain ⟨now₀, txBytes₀, hdue₀, hmeas₀⟩ :=
          exists_measured C hint f (show y < 2 ^ 32 by omega)
        obtain ⟨t₀', htick₀, htx₀, hrate₀⟩ := isoTxcTick_of_pos hdue₀ hpos hmax [default] txBytes₀
        have hle₀ := hanti [default] now₀ txBytes₀ (idle C p f) t₀' hdue₀ rfl htick₀ (by omega)
        rwa [hrate₀, hmeas₀] at hle₀
      exact ⟨fun hlo hhi hx => (htick _ _ hlo hhi hx).1,
        fun hlo hhi hx => (htick _ _ hlo hhi hx).2.1,
          fun hlo hhi hx hyx => (htick _ _ hlo hhi hx).2.2 _ hyx⟩
    · intro hs online now txBytes t hdue hlo hhi hmeas
      obtain ⟨t', htick, htx, hrate⟩ := isoTxcTick_of_pos hdue hpos hmax online txBytes
      refine ⟨t', htick, htx, ?_, ?_, ?_⟩
      · intro hcx
        rw [hrate]
        exact hs.le hlo hhi hmeas (by omega)
      · intro hxc
        rw [hrate]
        exact hs.ge hlo hhi hmeas (by omega)
      · intro online₀ now₀ txBytes₀ t₀ t₀' hdue₀ hsame htick₀ hle
        obtain ⟨t₀'', htick₀', htx₀, hrate₀⟩ := isoTxcTick_of_pos hdue₀ hpos hmax online₀ txBytes₀
        obtain rfl : t₀' = t₀'' := Except.ok.inj (htick₀.symm.trans htick₀')
        rw [hrate, hrate₀, hsame]
        exact hs.anti hlo hhi hmeas (by omega)
  · -- the tick divides by zero
    refine iff_of_false (fun h => ?_) fun h => hpos h.1
    obtain ⟨now, txBytes, hdue, hmeas⟩ := exists_measured C hint (p := p) 0 (x := 0) (by decide)
    obtain ⟨t', htick, -⟩ := h [default] now txBytes (idle C p 0) hdue
      (by show _ ≤ 0; omega) (Nat.zero_le _) (by omega)
    exact isoTxcTick_of_zero hdue (by omega) [default] txBytes t' htick

/-- The defaults, for a device that sends at no more than three times the link rate. -/
theorem isoTxcTick_reacts_default : Reacts Unit {} 29400 :=
  (isoTxcTick_reacts_iff (by decide) (by decide) (by decide) (by decide)).mpr
    ⟨by decide, Or.inr ⟨by decide, by decide⟩⟩

/-- A link of 40 Gb/s. -/
def fortyGig : Params := { isoMaxTxRate := 40000 }

/-- The rate of an idle device falls from 40000 to 6312 Mb/s. -/
theorem isoTxcTick_not_reacts :
    (isoTxcTick fortyGig [()] 200000 true (fun _ => 0) (idle Unit fortyGig 40000)).map txRate
        = .ok 0 ∧
      (isoTxcTick fortyGig [()] 200000 true (fun _ => 0) (idle Unit fortyGig 40000)).map rate
        = .ok 6312 ∧
      ¬ Reacts Unit fortyGig (2 ^ 32 - 1) := by
  have htx : (isoTxcTick fortyGig [()] 200000 true (fun _ => 0) (idle Unit fortyGig 40000)).map
      txRate = .ok 0 := by
    decide +kernel
  have hrate : (isoTxcTick fortyGig [()] 200000 true (fun _ => 0) (idle Unit fortyGig 40000)).map
      rate = .ok 6312 := by
    decide +kernel
  refine ⟨htx, hrate, fun h => ?_⟩
  obtain ⟨t', htick, -, -, hge, -⟩ := h [()] 200000 (fun _ => 0) (idle Unit fortyGig 40000)
    ⟨by decide +kernel, by decide +kernel⟩ (by decide) (by decide) (by decide +kernel)
  rw [htick] at htx hrate
  have htx : t'.txRate = 0 := Except.ok.inj htx
  have hrate : t'.rate = 6312 := Except.ok.inj hrate
  rw [htx, hrate] at hge
  exact absurd (hge (by decide)) (by decide)

end EyeQ.TxTick
