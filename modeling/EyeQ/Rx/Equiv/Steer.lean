import EyeQ.Rcp.Basic
import EyeQ.Rx.Context

/-!
# The aggregate rate: does `iso_rx_rcp_update` react in the right direction?

`iso_rx_rcp_update` takes the step `Rcp.next` with the capacity `ISO_VQ_DRAIN_RATE_MBPS`.  Unlike
the tick of a tx context it multiplies in `u64`, so the product always fits.  The factor `cap2 + cap
- rx_rate` is a `u32` here as well, and it wraps when packets have arrived at more than three times
the capacity: the aggregate rate then jumps to the top (`newRcp_of_wrap`).
`isoRxRcpUpdate_reacts_iff` says that this is the only exception.
-/

namespace EyeQ.RxContext

variable {C : Type} {p : Params}

/-! ### The arithmetic of the step -/

/-- The rate that the update computes from the old rate and the measured one. -/
def newRcp (p : Params) (rcpRate rxRate : ℕ) : ℕ :=
  u32 (min p.isoVqDrainRateMbps (max p.isoMinRfair
    (u64 (rcpRate * u32OfInt ((u32 (p.isoVqDrainRateMbps * 2) : ℤ) +
      u32 p.isoVqDrainRateMbps - rxRate))
      / u32 (p.isoVqDrainRateMbps * 2))))

section Step

variable {rate rxRate factor : ℕ} (hmin : p.isoMinRfair ≤ p.isoVqDrainRateMbps)
  (hmax : 3 * p.isoVqDrainRateMbps < 2 ^ 31)

include hmin hmax

/-- With what the factor is, for this measured rate.  The product does not wrap. -/
theorem newRcp_of_factor (hrate : rate ≤ p.isoVqDrainRateMbps) (hlt : factor < 2 ^ 32)
    (hfactor : u32OfInt ((3 * p.isoVqDrainRateMbps : ℕ) - rxRate) = factor) :
    newRcp p rate rxRate = max p.isoMinRfair (min p.isoVqDrainRateMbps
      (rate * factor / (p.isoVqDrainRateMbps * 2))) := by
  have hsum : ((p.isoVqDrainRateMbps * 2 : ℕ) : ℤ) + (p.isoVqDrainRateMbps : ℕ) - rxRate
      = ((3 * p.isoVqDrainRateMbps : ℕ) : ℤ) - rxRate := by
    push_cast
    ring
  have hprod : rate * factor < 2 ^ 64 := by
    calc rate * factor ≤ 2 ^ 31 * 2 ^ 32 := Nat.mul_le_mul (by omega) hlt.le
      _ < 2 ^ 64 := by decide
  rw [newRcp, u32_of_lt (n := p.isoVqDrainRateMbps * 2) (by omega),
    u32_of_lt (n := p.isoVqDrainRateMbps) (by omega), hsum, hfactor, u64_of_lt hprod,
    u32_of_lt (by omega),
    min_max_distrib_left, min_eq_right hmin]

theorem newRcp_eq_clamped (hrate : rate ≤ p.isoVqDrainRateMbps)
    (hrx : rxRate ≤ 3 * p.isoVqDrainRateMbps) :
    newRcp p rate rxRate
      = Rcp.clamped p.isoMinRfair p.isoVqDrainRateMbps p.isoVqDrainRateMbps rate rxRate := by
  have hfactor : (3 * (p.isoVqDrainRateMbps : ℤ) - rxRate).toNat =
      3 * p.isoVqDrainRateMbps - rxRate := by
    omega
  rw [newRcp_of_factor hmin hmax hrate (by omega) (u32OfInt_sub_of_le hrx (by omega)),
    Rcp.clamped, Rcp.next, hfactor, Nat.mul_comm p.isoVqDrainRateMbps 2]

/-- Whatever is measured, the rate stays within its limits. -/
theorem newRcp_mem (rate rxRate : ℕ) :
    p.isoMinRfair ≤ newRcp p rate rxRate ∧ newRcp p rate rxRate ≤ p.isoVqDrainRateMbps := by
  rw [newRcp, u32_of_lt (by omega)]
  omega

/-- Just above `3 C` the factor is `2 ^ 32 - 1`. -/
theorem newRcp_of_wrap (hpos : 0 < p.isoVqDrainRateMbps) :
    newRcp p p.isoVqDrainRateMbps (3 * p.isoVqDrainRateMbps + 1) = p.isoVqDrainRateMbps := by
  have hquot : p.isoVqDrainRateMbps
      ≤ p.isoVqDrainRateMbps * (2 ^ 32 - 1) / (p.isoVqDrainRateMbps * 2) := by
    rw [Nat.le_div_iff_mul_le (by omega)]
    exact Nat.mul_le_mul_left _ (by omega)
  rw [newRcp_of_factor hmin hmax le_rfl (by decide) (u32OfInt_sub_succ _), min_eq_left hquot,
    max_eq_right hmin]

/-- When the step goes in the right direction. -/
theorem steers_newRcp_iff {limit : ℕ} (hpos : 0 < p.isoVqDrainRateMbps) :
    Rcp.Steers p.isoMinRfair p.isoVqDrainRateMbps limit (newRcp p) ↔
      p.isoMinRfair = p.isoVqDrainRateMbps ∨ limit ≤ 3 * p.isoVqDrainRateMbps := by
  constructor
  · intro h
    by_contra hnot
    rw [not_or] at hnot
    have hstop : newRcp p p.isoVqDrainRateMbps (3 * p.isoVqDrainRateMbps) = p.isoMinRfair := by
      rw [newRcp_eq_clamped hmin hmax le_rfl le_rfl]
      exact Rcp.clamped_of_le (by push_cast; exact le_rfl)
    exact Rcp.not_steers_of_wrap (by omega) (by omega) hstop (newRcp_of_wrap hmin hmax hpos) h
  · rintro (heq | hlimit)
    · have hconst : ∀ f x, newRcp p f x = p.isoVqDrainRateMbps := by
        intro f x
        have hmem := newRcp_mem hmin hmax f x
        omega
      rw [heq]
      exact Rcp.steers_of_eq hconst
    · exact Rcp.steers_of_clamped hpos fun f x hf hx =>
        newRcp_eq_clamped hmin hmax hf (hx.trans hlimit)

end Step

/-! ### One update -/

/-- The update is due, and takes the lock. -/
structure RcpDue (p : Params) (env : RxEnv C) (ctx : RxContext C) : Prop where
  interval_le : p.isoVqHrcpUs ≤ u64OfInt (ktimeUsDelta env.rcpNow ctx.lastRcpTime)
  lock : env.rcpLock = true

section Update

variable {env : RxEnv C} {ctx : RxContext C}

theorem RcpDue.not_skips (h : RcpDue p env ctx) :
    ¬ (u64OfInt (ktimeUsDelta env.rcpNow ctx.lastRcpTime) < p.isoVqHrcpUs ∨
      ¬ env.rcpLock = true) := by
  simpa [h.lock] using h.interval_le

theorem isoRxRcpUpdate_of_pos (hpos : 0 < p.isoVqDrainRateMbps)
    (hmax : 3 * p.isoVqDrainRateMbps < 2 ^ 31) (hdue : RcpDue p env ctx) :
    isoRxRcpUpdate p env ctx
      = .ok { ctx with rcpRate := newRcp p ctx.rcpRate ctx.rxRate, lastRcpTime := env.rcpNow } := by
  have hdiv : 0 < u32 (p.isoVqDrainRateMbps * 2) := by
    rw [u32_of_lt (by omega)]
    omega
  unfold isoRxRcpUpdate
  dsimp only
  rw [if_neg hdue.not_skips, updateRcp, udiv_of_pos _ hdiv]
  rfl

theorem isoRxRcpUpdate_of_zero (hzero : p.isoVqDrainRateMbps = 0) (hdue : RcpDue p env ctx)
    (ctx' : RxContext C) : isoRxRcpUpdate p env ctx ≠ .ok ctx' := by
  unfold isoRxRcpUpdate
  dsimp only
  rw [if_neg hdue.not_skips, updateRcp, hzero]
  exact fun h => nomatch h

end Update

/-! ### The update reacts -/

/-- Every update with a measured rate of up to `limit` ends, keeps the aggregate rate within its
limits and moves it in the right direction: not up at or above capacity, not down at or below it,
and no further up than an update of the same rate after less has arrived. -/
def Reacts (C : Type) (p : Params) (limit : ℕ) : Prop :=
  ∀ (env : RxEnv C) (ctx : RxContext C), RcpDue p env ctx → p.isoMinRfair ≤ ctx.rcpRate →
    ctx.rcpRate ≤ p.isoVqDrainRateMbps → ctx.rxRate ≤ limit →
    ∃ ctx', isoRxRcpUpdate p env ctx = .ok ctx' ∧
      (p.isoMinRfair ≤ ctx'.rcpRate ∧ ctx'.rcpRate ≤ p.isoVqDrainRateMbps) ∧
      (p.isoVqDrainRateMbps ≤ ctx.rxRate → ctx'.rcpRate ≤ ctx.rcpRate) ∧
      (ctx.rxRate ≤ p.isoVqDrainRateMbps → ctx.rcpRate ≤ ctx'.rcpRate) ∧
      ∀ (env₀ : RxEnv C) (ctx₀ ctx₀' : RxContext C), RcpDue p env₀ ctx₀ →
        ctx₀.rcpRate = ctx.rcpRate → isoRxRcpUpdate p env₀ ctx₀ = .ok ctx₀' →
        ctx₀.rxRate ≤ ctx.rxRate → ctx'.rcpRate ≤ ctx₀'.rcpRate

/-- An environment whose clock stands at `now` and whose locks are free. -/
def envAt (c : C) (now : ℕ) : RxEnv C where
  cpu := c
  statsNow := now
  statsLock := true
  rcpNow := now
  rcpLock := true
  enqueueNow := now
  vqLock := true
  drainNow := now
  stateNow := now
  writelock := true
  rateNow := now
  rcLock := true
  genNow := now
  genNow2 := now
  alloc := none

/-- A context with the given rates. -/
def withRates (p : Params) (rcpRate rxRate : ℕ) : RxContext C :=
  { init p 0 0 with rcpRate := rcpRate, rxRate := rxRate }

theorem rcpDue_withRates (hint : p.isoVqHrcpUs < 2 ^ 31) (c : C) (rcpRate rxRate : ℕ) :
    RcpDue p (envAt c (1000 * p.isoVqHrcpUs)) (withRates p rcpRate rxRate) where
  interval_le := by
    show _ ≤ (((1000 * p.isoVqHrcpUs : ℕ) - (0 : ℕ) : ℤ) / 1000 % 2 ^ 64).toNat
    omega
  lock := rfl

/-- **When the aggregate rate reacts in the right direction.**  For all rates and all measured rates
of up to `limit` it does so exactly if the capacity is not zero and there is nothing to control, or
nothing above `3 C` is measured. -/
theorem isoRxRcpUpdate_reacts_iff [Inhabited C] {limit : ℕ}
    (hmin : p.isoMinRfair ≤ p.isoVqDrainRateMbps) (hmax : 3 * p.isoVqDrainRateMbps < 2 ^ 31)
    (hint : p.isoVqHrcpUs < 2 ^ 31) :
    Reacts C p limit ↔ 0 < p.isoVqDrainRateMbps ∧
      (p.isoMinRfair = p.isoVqDrainRateMbps ∨ limit ≤ 3 * p.isoVqDrainRateMbps) := by
  by_cases hpos : 0 < p.isoVqDrainRateMbps
  · rw [and_iff_right hpos, ← steers_newRcp_iff hmin hmax hpos]
    constructor
    · intro h
      -- the update of the rate `f` after `x` was measured
      have hupdate : ∀ f x, p.isoMinRfair ≤ f → f ≤ p.isoVqDrainRateMbps → x ≤ limit →
          (p.isoVqDrainRateMbps ≤ x → newRcp p f x ≤ f) ∧
            (x ≤ p.isoVqDrainRateMbps → f ≤ newRcp p f x) ∧
            ∀ y ≤ x, newRcp p f x ≤ newRcp p f y := by
        intro f x hlo hhi hx
        have hdue : ∀ y, RcpDue p (envAt default (1000 * p.isoVqHrcpUs))
            (withRates (C := C) p f y) :=
          fun y => rcpDue_withRates hint default f y
        obtain ⟨ctx', hup, -, hle, hge, hanti⟩ := h _ _ (hdue x) hlo hhi hx
        obtain rfl := Except.ok.inj ((isoRxRcpUpdate_of_pos hpos hmax (hdue x)).symm.trans hup)
        refine ⟨hle, hge, fun y hy => ?_⟩
        exact hanti _ _ _ (hdue y) rfl (isoRxRcpUpdate_of_pos hpos hmax (hdue y)) hy
      exact ⟨fun hlo hhi hx => (hupdate _ _ hlo hhi hx).1,
        fun hlo hhi hx => (hupdate _ _ hlo hhi hx).2.1,
        fun hlo hhi hx hyx => (hupdate _ _ hlo hhi hx).2.2 _ hyx⟩
    · intro hs env ctx hdue hlo hhi hrx
      refine ⟨_, isoRxRcpUpdate_of_pos hpos hmax hdue, newRcp_mem hmin hmax _ _, ?_, ?_, ?_⟩
      · exact hs.le hlo hhi hrx
      · exact hs.ge hlo hhi hrx
      · intro env₀ ctx₀ ctx₀' hdue₀ hsame hup₀ hle
        obtain rfl := Except.ok.inj ((isoRxRcpUpdate_of_pos hpos hmax hdue₀).symm.trans hup₀)
        dsimp only
        rw [hsame]
        exact hs.anti hlo hhi hrx hle
  · -- the update divides by zero
    refine iff_of_false (fun h => ?_) fun h => hpos h.1
    have hdue := rcpDue_withRates (C := C) hint default 0 0
    obtain ⟨ctx', hup, -⟩ := h _ _ hdue (show _ ≤ 0 by omega) (Nat.zero_le _) (Nat.zero_le _)
    exact isoRxRcpUpdate_of_zero (by omega) hdue ctx' hup

/-- The defaults, on a port that delivers at most three times the capacity. -/
theorem isoRxRcpUpdate_reacts_default : Reacts Unit {} 27000 :=
  (isoRxRcpUpdate_reacts_iff (by decide) (by decide) (by decide)).mpr
    ⟨by decide, Or.inr (by decide)⟩

/-- A capacity of 1 Gb/s, on a faster port. -/
def oneGig : Params := { isoVqDrainRateMbps := 1000 }

/-- At four times the capacity the aggregate rate doubles to the whole capacity. -/
theorem isoRxRcpUpdate_not_reacts :
    (isoRxRcpUpdate oneGig (envAt () 1000000) (withRates oneGig 500 4000)).map rcpRate = .ok 1000 ∧
      ¬ Reacts Unit oneGig (2 ^ 32 - 1) := by
  have hrate : (isoRxRcpUpdate oneGig (envAt () 1000000) (withRates oneGig 500 4000)).map rcpRate
      = .ok 1000 := by
    decide +kernel
  refine ⟨hrate, fun h => ?_⟩
  obtain ⟨ctx', hup, -, hle, -⟩ := h (envAt () 1000000) (withRates oneGig 500 4000)
    ⟨by decide +kernel, rfl⟩ (by decide) (by decide) (by decide)
  rw [hup] at hrate
  have hrate : ctx'.rcpRate = 1000 := Except.ok.inj hrate
  rw [hrate] at hle
  exact absurd (hle (by decide)) (by decide)

end EyeQ.RxContext
