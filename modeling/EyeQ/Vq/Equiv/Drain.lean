import EyeQ.Machine.Fallible
import EyeQ.Vq.Drain
import Mathlib.Tactic.Ring

/-!
# Virtual queues: what a packet does to a VQ

`Vq.Settled` is the invariant of one VQ: a weight of at most 1024, a cap that is not zero if it has
one, and a feedback rate of at least `ISO_MIN_RFAIR`.  A VQ is `Sound` if its weight is not zero
either.  This is what keeps the divisors of `iso_vq_drain` from zero: `rate2` is twice the target of
the VQ, which is positive (`Settled.target_pos`) and fits a `u32` (`Settled.target_le`).

`isoVqEnqueue_ends` is the result: for a set `E` of faults that the call may end with,
`iso_vq_enqueue` leaves the VQ settled.  It cannot fail at all for a VQ that is `Ready` for the
packet: its counters have been allocated, and its weight is not zero if the packet makes it run the
control algorithm.  For any other VQ it fails (`isoVqEnqueue_fails`).
-/

namespace EyeQ

open Machine

variable {C : Type} {p : Params} {E : Fault → Prop}

/-! ### Sound VQs -/

namespace Vq

structure Settled (p : Params) (vq : Vq C) : Prop where
  weight_le : vq.weight ≤ 1024
  cap_pos : vq.isStatic → 0 < vq.rate
  feedbackRate_ge : p.isoMinRfair ≤ vq.feedbackRate

structure Sound (p : Params) (vq : Vq C) : Prop extends Settled p vq where
  weight_pos : 0 < vq.weight

theorem init_settled (p : Params) (now : ℕ) (percpu : Bool) (klass : UInt32) :
    (init p now percpu klass : Vq C).Settled p where
  weight_le := by simp [init]
  cap_pos := fun h => absurd h (by simp [init])
  feedbackRate_ge := le_refl _

variable {vq : Vq C} {rcpRate : ℕ}

theorem Settled.weight_mul_le (h : vq.Settled p) (hrcp : rcpRate ≤ p.isoVqDrainRateMbps) :
    vq.weight * rcpRate ≤ 1024 * p.isoVqDrainRateMbps :=
  Nat.mul_le_mul h.weight_le hrcp

theorem Settled.target_le (h : vq.Settled p) (hrcp : rcpRate ≤ p.isoVqDrainRateMbps) :
    target rcpRate vq ≤ 1024 * p.isoVqDrainRateMbps := by
  have hle := (u64_le _).trans (h.weight_mul_le hrcp)
  rw [target]
  split_ifs
  · exact (min_le_left _ _).trans hle
  · exact hle

/-- The target is positive, since the link rate is an `int` and the product is not cut to 64
bits. -/
theorem Settled.target_pos (h : vq.Settled p) (hweight : 0 < vq.weight) (hpos : 0 < rcpRate)
    (hle : rcpRate ≤ p.isoVqDrainRateMbps) (hint : p.isoVqDrainRateMbps < 2 ^ 31) :
    0 < target rcpRate vq := by
  have hmul := h.weight_mul_le hle
  have hprod : 0 < vq.weight * rcpRate := Nat.mul_pos hweight hpos
  rw [target, u64_of_lt (by omega)]
  split_ifs with hstatic
  · exact lt_min hprod (h.cap_pos hstatic)
  · exact hprod

/-! ### The control algorithm -/

theorem udiv_ends (a : ℕ) {b : ℕ} (hb : E .divide ∨ 0 < b) : Ends (· = a / b) E (udiv a b) := by
  by_cases hpos : 0 < b
  · rw [udiv_of_pos a hpos]
    rfl
  · obtain rfl : b = 0 := by omega
    exact hb.resolve_right hpos

theorem markedFrac_ends {rxPkts : ℕ} (rxMarked : ℕ) (hpkts : 0 < rxPkts) :
    Ends (fun _ => True) E (markedFrac rxPkts rxMarked) :=
  (udiv_ends _ (Or.inr hpkts)).bind fun _ _ => trivial

theorem correctedRate_ends {dt : ℕ} (hdt : 0 < dt) (rate frac : ℕ) (rxRate : ℤ) :
    Ends (fun _ => True) E (correctedRate p dt rate frac rxRate) := by
  rw [correctedRate]
  refine Ends.ite (fun _ => ?_) fun _ => trivial
  refine (udiv_ends _ (Or.inr (by decide))).bind fun bits _ => ?_
  exact (udiv_ends bits (Or.inr hdt)).bind fun _ _ => trivial

theorem advertise_ends (hp : p.Sane) {rate : ℕ} (hpos : E .divide ∨ 0 < rate)
    (hle : rate ≤ 1024 * p.isoVqDrainRateMbps) (rxRate : ℤ) (feedbackRate : ℕ) :
    Ends (p.isoMinRfair ≤ ·) E (advertise p rate rxRate feedbackRate) := by
  have hlt := hp.drainRate_lt
  rw [advertise, if_pos hp.drainRate_le, u32_of_lt (by omega)]
  have hrate2 : E .divide ∨ 0 < rate * 2 := hpos.imp_right fun h => by omega
  exact (udiv_ends _ hrate2).bind fun _ _ => le_max_left _ _

/-- The control algorithm writes rates and nothing else. -/
structure Controlled (vq vq' : Vq C) : Prop where
  klass : vq'.klass = vq.klass
  weight : vq'.weight = vq.weight
  isStatic : vq'.isStatic = vq.isStatic
  rate : vq'.rate = vq.rate
  percpuStats : vq'.percpuStats = vq.percpuStats

theorem control_ends (hp : p.Sane) (h : vq.Settled p) (hweight : E .divide ∨ 0 < vq.weight)
    (hge : p.isoMinRfair ≤ rcpRate) (hle : rcpRate ≤ p.isoVqDrainRateMbps) {dt : ℕ} (hdt : 0 < dt)
    (rxBytes rxPkts rxMarked : ℕ) :
    Ends (fun vq' => Controlled vq vq' ∧ p.isoMinRfair ≤ vq'.feedbackRate) E
      (control p rcpRate dt rxBytes rxPkts rxMarked vq) := by
  rw [control]
  have hpkts : 0 < if rxPkts = 0 then 1 else rxPkts := by
    split_ifs
    · exact Nat.one_pos
    · omega
  refine (udiv_ends _ (Or.inr hdt)).bind fun measured _ => ?_
  refine (markedFrac_ends rxMarked hpkts).bind fun frac _ => ?_
  refine (correctedRate_ends hdt _ frac _).bind fun rxRate _ => ?_
  -- the last division is by twice the target
  have hlt := hp.drainRate_lt
  have hpos : E .divide ∨ 0 < target rcpRate vq := hweight.imp_right fun hw =>
    h.target_pos hw (hp.minRfair_pos.trans_le hge) hle (by omega)
  have hadv := advertise_ends hp hpos (h.target_le hle) rxRate vq.feedbackRate
  exact hadv.bind fun fb hfb => ⟨⟨rfl, rfl, rfl, rfl, rfl⟩, hfb⟩

/-- With a weight of zero the target is zero, and the last division fails. -/
theorem control_fails (hp : p.Sane) (hweight : vq.weight = 0) (rcpRate dt : ℕ)
    (rxBytes rxPkts rxMarked : ℕ) :
    Fails (control p rcpRate dt rxBytes rxPkts rxMarked vq) := by
  have htarget : target rcpRate vq = 0 := by simp [target, hweight, u64]
  have hadv : ∀ x fb, Fails (advertise p (target rcpRate vq) x fb) := by
    intro x fb
    rw [advertise, if_pos hp.drainRate_le, htarget]
    exact ⟨.divide, rfl⟩
  rw [control]
  refine (ends_true _).bind_fails fun measured _ => ?_
  refine (ends_true _).bind_fails fun frac _ => ?_
  refine (ends_true _).bind_fails fun rxRate _ => ?_
  exact (hadv rxRate _).bind

/-! ### Draining and enqueueing -/

variable [DecidableEq C]

/-- What a packet changes in a VQ leaves it settled, and leaves its counters where they are. -/
structure Kept (p : Params) (vq vq' : Vq C) : Prop where
  settled : vq'.Settled p
  klass : vq'.klass = vq.klass
  weight : vq'.weight = vq.weight
  percpuStats : vq'.percpuStats.isSome = vq.percpuStats.isSome

omit [DecidableEq C] in
theorem Kept.refl (h : vq.Settled p) : Kept p vq vq := ⟨h, rfl, rfl, rfl⟩

omit [DecidableEq C] in
theorem Kept.trans {vq₁ vq₂ : Vq C} (h₁ : Kept p vq vq₁) (h₂ : Kept p vq₁ vq₂) : Kept p vq vq₂ :=
  ⟨h₂.settled, h₂.klass.trans h₁.klass, h₂.weight.trans h₁.weight,
    h₂.percpuStats.trans h₁.percpuStats⟩

theorem modifyStats_ends (h : vq.Settled p) (hst : E .wild ∨ vq.percpuStats.isSome) (c : C)
    (f : Stats → Stats) :
    Ends (fun vq' => Kept p vq vq' ∧ vq'.lastUpdateTime = vq.lastUpdateTime ∧
      vq'.percpuStats.isSome) E (modifyStats c f vq) := by
  rw [modifyStats]
  rcases hstats : vq.percpuStats with _ | stats
  · rw [hstats] at hst
    exact hst.resolve_right (by simp)
  · refine ⟨⟨⟨h.weight_le, h.cap_pos, h.feedbackRate_ge⟩, rfl, rfl, ?_⟩, rfl, rfl⟩
    rw [hstats]
    rfl

theorem isoVqDrain_ends (hp : p.Sane) (h : vq.Settled p) (hst : vq.percpuStats.isSome)
    (hge : p.isoMinRfair ≤ rcpRate) (hle : rcpRate ≤ p.isoVqDrainRateMbps) (online : List C)
    {now dt : ℕ} (hdt : 0 < dt)
    (hweight : p.isoVqUpdateIntervalUs ≤ u64OfInt (ktimeUsDelta now vq.lastUpdateTime) →
      E .divide ∨ 0 < vq.weight) :
    Ends (Kept p vq) E (isoVqDrain p online rcpRate now dt vq) := by
  obtain ⟨stats, hstats⟩ := Option.isSome_iff_exists.1 hst
  rw [isoVqDrain]
  refine Ends.ite (fun _ => Kept.refl h) fun hdue => ?_
  simp only [hstats]
  have hread : ({ vq with
      lastUpdateTime := now
      percpuStats := some fun c => if c ∈ online then (stats c).reset else stats c } :
      Vq C).Settled p := ⟨h.weight_le, h.cap_pos, h.feedbackRate_ge⟩
  refine (control_ends hp hread (hweight (by omega)) hge hle hdt _ _ _).mono ?_ fun _ he => he
  rintro vq' ⟨same, hfb⟩
  refine ⟨⟨?_, ?_, hfb⟩, same.klass, same.weight, ?_⟩
  · rw [same.weight]
    exact h.weight_le
  · rw [same.isStatic, same.rate]
    exact h.cap_pos
  · rw [same.percpuStats, hstats]
    rfl

/-- The packet makes `iso_vq_enqueue` call `iso_vq_drain`, which finds that it is time, too. -/
def DrainDue (p : Params) (env : RxEnv C) (vq : Vq C) : Prop :=
  (u64OfInt (ktimeUsDelta env.enqueueNow vq.lastUpdateTime) > p.isoVqUpdateIntervalUs ∧
      env.vqLock = true) ∧
    p.isoVqUpdateIntervalUs ≤ u64OfInt (ktimeUsDelta env.drainNow vq.lastUpdateTime)

theorem drainIfDue_ends (hp : p.Sane) (h : vq.Settled p) (hst : vq.percpuStats.isSome)
    (hge : p.isoMinRfair ≤ rcpRate) (hle : rcpRate ≤ p.isoVqDrainRateMbps) (online : List C)
    (env : RxEnv C) (hweight : DrainDue p env vq → E .divide ∨ 0 < vq.weight) :
    Ends (Kept p vq) E (drainIfDue p online rcpRate env vq) := by
  rw [drainIfDue]
  refine Ends.ite (fun hdue => ?_) fun _ => Kept.refl h
  -- `dt` is above the interval, so it is not zero
  exact isoVqDrain_ends hp h hst hge hle online ((Nat.zero_le _).trans_lt hdue.1) fun hdue' =>
    hweight ⟨hdue, hdue'⟩

theorem drainIfDue_fails (hp : p.Sane) (hweight : vq.weight = 0) (online : List C) (rcpRate : ℕ)
    {env : RxEnv C} (hdue : DrainDue p env vq) : Fails (drainIfDue p online rcpRate env vq) := by
  rw [drainIfDue, if_pos hdue.1, isoVqDrain, if_neg (by have := hdue.2; omega)]
  cases vq.percpuStats with
  | none => exact ⟨.wild, rfl⟩
  | some stats =>
    apply control_fails hp
    exact hweight

/-- The VQ is ready for a packet, but for the faults of `E`. -/
structure ReadyBut (p : Params) (E : Fault → Prop) (env : RxEnv C) (vq : Vq C) : Prop where
  stats : E .wild ∨ vq.percpuStats.isSome
  weight_pos : DrainDue p env vq → E .divide ∨ 0 < vq.weight

/-- The VQ is ready for a packet. -/
structure Ready (p : Params) (env : RxEnv C) (vq : Vq C) : Prop where
  stats : vq.percpuStats.isSome
  weight_pos : DrainDue p env vq → 0 < vq.weight

omit [DecidableEq C] in
theorem Ready.but {env : RxEnv C} (h : vq.Ready p env) : vq.ReadyBut p E env :=
  ⟨Or.inr h.stats, fun hdue => Or.inr (h.weight_pos hdue)⟩

theorem isoVqEnqueue_ends (hp : p.Sane) (h : vq.Settled p) {env : RxEnv C}
    (hready : vq.ReadyBut p E env) (hge : p.isoMinRfair ≤ rcpRate)
    (hle : rcpRate ≤ p.isoVqDrainRateMbps) (online : List C) (pkt : Skb) :
    Ends (fun vq' => Kept p vq vq' ∧ vq'.percpuStats.isSome) E
      (isoVqEnqueue p online rcpRate env pkt vq) := by
  rw [isoVqEnqueue]
  refine (modifyStats_ends h hready.stats env.cpu _).bind fun vq₁ h₁ => ?_
  obtain ⟨hkept₁, htime, hst₁⟩ := h₁
  have hweight : DrainDue p env vq₁ → E .divide ∨ 0 < vq₁.weight := by
    rw [DrainDue, htime, hkept₁.weight]
    exact hready.weight_pos
  have hdrain := drainIfDue_ends hp hkept₁.settled hst₁ hge hle online env hweight
  refine hdrain.bind fun vq₂ hkept₂ => ?_
  have hst₂ : vq₂.percpuStats.isSome := by rwa [hkept₂.percpuStats]
  refine (modifyStats_ends hkept₂.settled (Or.inr hst₂) env.cpu _).mono ?_ fun _ he => he
  rintro vq₃ ⟨hkept₃, -, hst₃⟩
  exact ⟨(hkept₁.trans hkept₂).trans hkept₃, hst₃⟩

/-- A VQ that is not ready. -/
theorem isoVqEnqueue_fails (hp : p.Sane) (h : vq.Settled p) {env : RxEnv C}
    (hready : ¬ vq.Ready p env) (rcpRate : ℕ) (online : List C) (pkt : Skb) :
    Fails (isoVqEnqueue p online rcpRate env pkt vq) := by
  rw [isoVqEnqueue]
  by_cases hst : vq.percpuStats.isSome
  · have hcount := modifyStats_ends (E := fun _ => True) h (Or.inr hst) env.cpu (Stats.count · pkt)
    refine hcount.bind_fails fun vq₁ h₁ => Fails.bind ?_
    obtain ⟨hkept, htime, -⟩ := h₁
    obtain ⟨hdue, hweight⟩ : DrainDue p env vq ∧ ¬ 0 < vq.weight := by
      by_contra hno
      exact hready ⟨hst, fun hdue => by_contra fun hw => hno ⟨hdue, hw⟩⟩
    refine drainIfDue_fails hp (by rw [hkept.weight]; omega) online rcpRate ?_
    rw [DrainDue, htime]
    exact hdue
  · -- the counters are counted in first
    rw [Option.not_isSome_iff_eq_none] at hst
    refine Fails.bind ⟨.wild, ?_⟩
    rw [modifyStats, hst]

end Vq

end EyeQ
