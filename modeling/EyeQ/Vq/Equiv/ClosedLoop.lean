import EyeQ.Rcp.ClosedLoop
import EyeQ.Vq.Equiv.Control

/-!
# The VQ and its senders

The feedback rate of a VQ is what its senders transmit at until they are told another one.  `Fed`
says what has arrived at a VQ when `n` senders have done so and no packet was marked, and `Round` is
a drain that follows.  As long as the load is at most three times the target, the drain computes
`Rcp.loop` (`isoVqDrain_fed`), and `isoVqDrain_closedLoop` carries the results about the loop over
to the code.
-/

namespace EyeQ.Vq

variable {C : Type} [DecidableEq C]

/-- The VQ is due for a drain, the counters `stats` have no marks, and the rate measured from them
is that of `n` senders at the last feedback rate. -/
structure Fed (p : Params) (online : List C) (n : ℕ) (vq : Vq C) (stats : C → Stats)
    (now dt : ℕ) : Prop where
  due : ¬ u64OfInt (ktimeUsDelta now vq.lastUpdateTime) < p.isoVqUpdateIntervalUs
  dt_pos : 0 < dt
  unmarked : ∀ c ∈ online, (stats c).rxMarkedSinceLastFeedback = 0
  measured : u64 (sub64 (u64 (online.map fun c => (stats c).rxBytes).sum) vq.lastRxBytes * 8) / dt
    = n * vq.feedbackRate

/-- A drain at the target `rate`, with what `n` senders at the last feedback rate have sent. -/
def Round (p : Params) (online : List C) (rate n : ℕ) (vq vq' : Vq C) : Prop :=
  ∃ rcpRate stats now dt, target rcpRate vq = rate ∧ Fed p online n vq stats now dt ∧
    isoVqDrain p online rcpRate now dt { vq with percpuStats := some stats } = .ok vq'

section

variable {p : Params} {online : List C} {rate n : ℕ} {vq vq' : Vq C}

theorem isoVqDrain_fed (hmax : p.isoVqDrainRateMbps ≤ p.isoMaxTxRate) (hpos : 0 < rate)
    (hrate : rate < 2 ^ 29) (hn : 1 ≤ n) (hload : n * vq.feedbackRate ≤ 3 * rate)
    {rcpRate now dt : ℕ} {stats : C → Stats} (htarget : target rcpRate vq = rate)
    (hfed : Fed p online n vq stats now dt) :
    ∃ vq', isoVqDrain p online rcpRate now dt { vq with percpuStats := some stats } = .ok vq' ∧
      vq'.feedbackRate = Rcp.loop p.isoMinRfair rate n vq.feedbackRate := by
  have hfb : vq.feedbackRate ≤ n * vq.feedbackRate := Nat.le_mul_of_pos_left _ hn
  have hmarked : u32 (online.map fun c => (stats c).rxMarkedSinceLastFeedback).sum = 0 := by
    have hzero : ∀ x ∈ online.map fun c => (stats c).rxMarkedSinceLastFeedback, x = 0 := by
      intro x hx
      obtain ⟨c, hc, rfl⟩ := List.mem_map.mp hx
      exact hfed.unmarked c hc
    rw [List.sum_eq_zero hzero]
    rfl
  have hrate2 : 0 < u32 (rate * 2) := by
    rw [u32_of_lt (by omega)]
    omega
  rw [isoVqDrain, if_neg hfed.due]
  dsimp only
  rw [control_bind _ _ _ _ _ _ hfed.dt_pos]
  have htarget' : target rcpRate { vq with
      lastUpdateTime := now
      percpuStats := some fun c => if c ∈ online then (stats c).reset else stats c } =
        rate := htarget
  rw [htarget', advertise_eq hmax hrate2]
  refine ⟨_, rfl, ?_⟩
  dsimp only
  rw [hfed.measured, hmarked, usedRate_of_frac_eq_zero (by simp [frac, u32]) (by omega)]
  exact newRate_eq_clamped (by omega) (by omega) (by omega) (by exact_mod_cast hload)

theorem Round.feedbackRate_eq (hmax : p.isoVqDrainRateMbps ≤ p.isoMaxTxRate) (hpos : 0 < rate)
    (hrate : rate < 2 ^ 29) (hn : 1 ≤ n) (hload : n * vq.feedbackRate ≤ 3 * rate)
    (h : Round p online rate n vq vq') :
    vq'.feedbackRate = Rcp.loop p.isoMinRfair rate n vq.feedbackRate := by
  obtain ⟨rcpRate, stats, now, dt, htarget, hfed, hdrain⟩ := h
  obtain ⟨vq'', hdrain', heq⟩ := isoVqDrain_fed hmax hpos hrate hn hload htarget hfed
  obtain rfl : vq' = vq'' := Except.ok.inj (hdrain.symm.trans hdrain')
  exact heq

/-- **The closed loop is stable.**  A drain ends, with a rate that climbs without overshoot up to
the target and falls above it, to at most nine eighths of the target or to the minimum.  A sequence
of drains that starts at or below the target comes to rest, and where it can rest is near the
target. -/
theorem isoVqDrain_closedLoop (hmax : p.isoVqDrainRateMbps ≤ p.isoMaxTxRate) (hpos : 0 < rate)
    (hrate : rate < 2 ^ 29) (hn : 1 ≤ n) (hmin : n * p.isoMinRfair ≤ rate) :
    (∀ (vq : Vq C) (rcpRate : ℕ) (stats : C → Stats) (now dt : ℕ), target rcpRate vq = rate →
      p.isoMinRfair ≤ vq.feedbackRate → Fed p online n vq stats now dt →
      n * vq.feedbackRate ≤ 3 * rate →
      ∃ vq', isoVqDrain p online rcpRate now dt { vq with percpuStats := some stats } = .ok vq' ∧
        (n * vq.feedbackRate ≤ rate →
          vq.feedbackRate ≤ vq'.feedbackRate ∧ n * vq'.feedbackRate ≤ rate) ∧
        (rate < n * vq.feedbackRate → vq'.feedbackRate ≤ vq.feedbackRate) ∧
        (n * vq'.feedbackRate ≤ 9 * rate / 8 ∨ vq'.feedbackRate = p.isoMinRfair)) ∧
    (∀ vqs : ℕ → Vq C, p.isoMinRfair ≤ (vqs 0).feedbackRate → n * (vqs 0).feedbackRate ≤ rate →
      (∀ i, Round p online rate n (vqs i) (vqs (i + 1))) →
      ∃ i, ∀ j, i ≤ j → (vqs j).feedbackRate = (vqs i).feedbackRate) ∧
    (∀ vq vq' : Vq C, Round p online rate n vq vq' → vq'.feedbackRate = vq.feedbackRate →
      n * vq.feedbackRate ≤ rate →
      vq.feedbackRate * (rate - n * vq.feedbackRate) < 2 * rate) := by
  refine ⟨?_, ?_, ?_⟩
  · intro vq rcpRate stats now dt htarget hge hfed hload
    obtain ⟨vq', hdrain, heq⟩ := isoVqDrain_fed hmax hpos hrate hn hload htarget hfed
    refine ⟨vq', hdrain, ?_, ?_, ?_⟩
    · intro hlow
      rw [heq]
      exact ⟨Rcp.le_loop hn hpos hlow, Rcp.mul_loop_le hpos hmin hlow⟩
    · intro hhigh
      rw [heq]
      exact Rcp.loop_le hge hhigh.le
    · rw [heq]
      exact Rcp.mul_loop_le_of_le_three hpos hload
  · intro vqs _ hstart hrounds
    -- all rates stay at or below the target, so each drain is one step of the loop
    have hbelow : ∀ i, n * (vqs i).feedbackRate ≤ rate := by
      intro i
      induction i with
      | zero => exact hstart
      | succ i ih =>
        rw [(hrounds i).feedbackRate_eq hmax hpos hrate hn (by omega)]
        exact Rcp.mul_loop_le hpos hmin ih
    refine Rcp.exists_rest (u := fun i => (vqs i).feedbackRate) hn hpos hmin hstart fun i => ?_
    have hload := hbelow i
    exact (hrounds i).feedbackRate_eq hmax hpos hrate hn (by omega)
  · intro vq vq' hround hrest hlow
    rw [hround.feedbackRate_eq hmax hpos hrate hn (by omega)] at hrest
    exact Rcp.mul_sub_lt hn hpos hlow hrest

end

/-- A VQ that advertises 1000 Mb/s. -/
def startingVq : Vq Unit := { Vq.init {} 0 true 0 with feedbackRate := 1000 }

/-- What three senders at 1000 Mb/s send in 1 ms. -/
def threeSenders : Unit → Stats := fun _ => { rxBytes := 375000 }

/-- They may send more, but no more than 9000 Mb/s together. -/
theorem isoVqDrain_closedLoop_three :
    ∃ vq', isoVqDrain {} [()] 9000 1000000 1000 { startingVq with percpuStats := some threeSenders }
        = .ok vq' ∧ 1000 ≤ vq'.feedbackRate ∧ 3 * vq'.feedbackRate ≤ 9000 := by
  have hloop := @isoVqDrain_closedLoop Unit _ {} [()] 9000 3 (by decide) (by decide) (by decide)
    (by decide) (by decide)
  have hfed : Fed {} [()] 3 startingVq threeSenders 1000000 1000 := by
    refine ⟨by decide, by decide, fun _ _ => rfl, by decide⟩
  obtain ⟨vq', hdrain, hlow, -⟩ :=
    hloop.1 startingVq 9000 threeSenders 1000000 1000 (by decide) (by decide) hfed (by decide)
  exact ⟨vq', hdrain, hlow (by decide)⟩

end EyeQ.Vq
