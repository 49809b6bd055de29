import EyeQ.Skb
import EyeQ.Vq.Basic

/-!
# The functions of `vq.c` on the receive path

`isoVqEnqueue` counts a packet and, when the VQ has not been updated for a while, calls
`isoVqDrain`.  `isoVqDrain` adds up and resets the counters of all CPUs and hands them to the
control algorithm `control`, which is compiled with `ECN1`.  All arithmetic is that of the C types:
`rate` and the rates of the VQ are `u64`, `rate2` and the marked fraction are `u32`, the measured
rate is an `int`.
-/

namespace EyeQ

variable {C : Type}

/-- The environment of one call of `iso_rx`: the CPU, the readings of `ktime_get`, the outcome of
each `spin_trylock`, and the buffer that `netdev_alloc_skb` returns, if any. -/
structure RxEnv (C : Type) where
  cpu : C
  /-- In `iso_rx_stats_update`. -/
  statsNow : ℕ
  statsLock : Bool
  /-- In `iso_rx_rcp_update`. -/
  rcpNow : ℕ
  rcpLock : Bool
  /-- In `iso_vq_enqueue` and `iso_vq_drain`. -/
  enqueueNow : ℕ
  vqLock : Bool
  drainNow : ℕ
  /-- In `iso_state_get`. -/
  stateNow : ℕ
  writelock : Bool
  /-- When a rate is installed. -/
  rateNow : ℕ
  rcLock : Bool
  /-- When feedback is generated: the reading kept in `now` and the one `dt` is computed from. -/
  genNow : ℕ
  genNow2 : ℕ
  alloc : Option ℕ

namespace Vq

/-! ### The control algorithm -/

/-- `1 << ECN_ALPHA_FRAC_SHIFT`. -/
def den : ℕ := 1024

/-- The rate the VQ is entitled to. -/
def target (rcpRate : ℕ) (vq : Vq C) : ℕ :=
  -- `vq->weight` is a `u64`, so the product is one too
  let rate := u64 (vq.weight * rcpRate)
  if vq.isStatic then min rate vq.rate else rate

/-- `EWMA_G16`. -/
def ewmaG16 (old new : ℕ) : ℕ := u32 (u32OfInt (u32 (16 * old) - old) + new) / 16

/-- The marked fraction, over `den`. -/
def markedFrac (rxPkts rxMarked : ℕ) : Except Fault ℕ := do
  let frac ← udiv (u32 (rxMarked * 1024)) rxPkts
  pure (min den frac)

/-- The measured rate with the correction for marked packets. -/
def correctedRate (p : Params) (dt rate frac : ℕ) (rxRate : ℤ) : Except Fault ℤ :=
  if frac ≠ 0 then do
    let bits ← udiv (u32 (p.isoEcnMarkThreshBytes * 8 * (den + frac))) den
    let extra ← udiv bits dt
    -- the clamp is made here only, and after the sum has been stored in an `int`
    pure (min (s32 (rxRate + extra)) (s32 (u64 (3 * rate))))
  else pure rxRate

/-- The new `feedback_rate`. -/
def advertise (p : Params) (rate : ℕ) (rxRate : ℤ) (feedbackRate : ℕ) : Except Fault ℕ :=
  if p.isoVqDrainRateMbps ≤ p.isoMaxTxRate then do
    let rate2 := u32 (rate * 2)
    -- `rate2 + rate - rx_rate` is a `u64`: a negative difference wraps
    let fb ← udiv (u64OfInt (feedbackRate * ((rate2 : ℤ) + rate - rxRate))) rate2
    pure (max p.isoMinRfair (min rate fb))
  else pure p.isoMaxTxRate

/-- The control algorithm of `iso_vq_drain`, from the counters of all CPUs. -/
def control (p : Params) (rcpRate dt rxBytes rxPkts rxMarked : ℕ) (vq : Vq C) :
    Except Fault (Vq C) := do
  let rxPkts := if rxPkts = 0 then 1 else rxPkts
  let rate := target rcpRate vq
  let diff := sub64 rxBytes vq.lastRxBytes
  let measured ← udiv (u64 (diff * 8)) dt
  let frac ← markedFrac rxPkts rxMarked
  let rxRate ← correctedRate p dt rate frac (s32 measured)
  let feedbackRate ← advertise p rate rxRate vq.feedbackRate
  pure { vq with
    alpha := ewmaG16 vq.alpha frac
    feedbackRate := feedbackRate
    rxRate := u64OfInt rxRate
    lastRxBytes := rxBytes }

/-! ### Draining and enqueueing -/

/-- The counters of one CPU after they have been read. -/
def Stats.reset (st : Stats) : Stats :=
  { st with bytesQueued := 0, rxSinceLastFeedback := 0, rxMarkedSinceLastFeedback := 0 }

variable [DecidableEq C]

/-- `iso_vq_drain`, with the CPUs that are online.  `dt` is what the caller measured. -/
def isoVqDrain (p : Params) (online : List C) (rcpRate now dt : ℕ) (vq : Vq C) :
    Except Fault (Vq C) :=
  if u64OfInt (ktimeUsDelta now vq.lastUpdateTime) < p.isoVqUpdateIntervalUs then pure vq
  else
    match vq.percpuStats with
    | none => .error .wild
    | some stats =>
      let rxBytes := u64 (online.map fun c => (stats c).rxBytes).sum
      let rxPkts := u32 (online.map fun c => (stats c).rxSinceLastFeedback).sum
      let rxMarked := u32 (online.map fun c => (stats c).rxMarkedSinceLastFeedback).sum
      control p rcpRate dt rxBytes rxPkts rxMarked
        { vq with
          lastUpdateTime := now
          percpuStats := some fun c => if c ∈ online then (stats c).reset else stats c }

/-- `(iph->tos & 0x3) == 0x3`, for an IPv4 packet. -/
def isMarked (skb : Skb) : Bool := skb.isIp && (skb.tos &&& 0x3 == 0x3)

/-- The counters `iso_vq_enqueue` updates before the VQ is drained. -/
def Stats.count (st : Stats) (skb : Skb) : Stats :=
  { st with
    rxSinceLastFeedback := u32 (st.rxSinceLastFeedback + 1)
    rxPackets := u64 (st.rxPackets + 1)
    networkMarked := if isMarked skb then u64 (st.networkMarked + 1) else st.networkMarked
    rxMarkedSinceLastFeedback :=
      if isMarked skb then u32 (st.rxMarkedSinceLastFeedback + 1)
      else st.rxMarkedSinceLastFeedback }

/-- The counters `iso_vq_enqueue` updates after the VQ is drained. -/
def Stats.addBytes (st : Stats) (len : ℕ) : Stats :=
  { st with bytesQueued := u64 (st.bytesQueued + len), rxBytes := u64 (st.rxBytes + len) }

/-- Write the counters of one CPU, `per_cpu_ptr(vq->percpu_stats, cpu)`. -/
def modifyStats (c : C) (f : Stats → Stats) (vq : Vq C) : Except Fault (Vq C) :=
  match vq.percpuStats with
  | none => .error .wild
  | some stats => .ok { vq with percpuStats := some (Function.update stats c (f (stats c))) }

/-- The call of `iso_vq_drain` in `iso_vq_enqueue`. -/
def drainIfDue (p : Params) (online : List C) (rcpRate : ℕ) (env : RxEnv C) (vq : Vq C) :
    Except Fault (Vq C) :=
  let dt := u64OfInt (ktimeUsDelta env.enqueueNow vq.lastUpdateTime)
  if dt > p.isoVqUpdateIntervalUs ∧ env.vqLock then
    isoVqDrain p online rcpRate env.drainNow dt vq
  else pure vq

/-- `iso_vq_enqueue`. -/
def isoVqEnqueue (p : Params) (online : List C) (rcpRate : ℕ) (env : RxEnv C) (pkt : Skb)
    (vq : Vq C) : Except Fault (Vq C) := do
  let vq ← modifyStats env.cpu (Stats.count · pkt) vq
  let vq ← drainIfDue p online rcpRate env vq
  modifyStats env.cpu (Stats.addBytes · pkt.size) vq

/-- `iso_vq_over_limits`: the feedback rate, as an `int`. -/
def isoVqOverLimits (vq : Vq C) : ℤ := s32 vq.feedbackRate

end Vq

end EyeQ
