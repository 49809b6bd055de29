import EyeQ.Sum.Basic
import EyeQ.Vq.Equiv.Control
import EyeQ.Vq.Equiv.Drain

/-!
# The counters of a VQ between two drains

`iso_vq_enqueue` counts each packet, and each marked packet, on the CPU that receives it, and
`iso_vq_drain` adds up and resets the counters of all CPUs.  `Tallied online window vq` says that
the counters of `vq` add up to the packets of `window`; the counters are `u32`, and so is the sum.
`Tallied.enqueue` is what `iso_vq_enqueue` does to the window: it adds the packet, or it drains the
VQ and the window is empty.

`drainFrac` is the marked fraction that a drain computes.  If the counters are those of the window,
it is the fraction of marked packets in it (`Tallied.drainFrac_eq`).
-/

namespace EyeQ.Vq

open Machine

variable {C : Type} {p : Params} {vq vq' : Vq C} {online : List C}

instance (p : Params) (env : RxEnv C) (vq : Vq C) : Decidable (DrainDue p env vq) :=
  inferInstanceAs (Decidable ((_ ∧ _) ∧ _))

/-! ### The fraction -/

/-- The sum of one of the counters over the CPUs that are online, as a `u32`. -/
def total (online : List C) (counter : Stats → ℕ) (stats : C → Stats) : ℕ :=
  u32 (online.map fun c => counter (stats c)).sum

/-- The fraction that `iso_vq_drain` computes. -/
def drainFrac (online : List C) (vq : Vq C) : ℕ :=
  match vq.percpuStats with
  | none => 0
  | some stats =>
    frac (total online Stats.rxSinceLastFeedback stats)
      (total online Stats.rxMarkedSinceLastFeedback stats)

theorem control_eq_ok {rcpRate dt rxBytes rxPkts rxMarked : ℕ}
    (h : control p rcpRate dt rxBytes rxPkts rxMarked vq = .ok vq') :
    vq'.percpuStats = vq.percpuStats ∧ vq'.alpha = ewmaG16 vq.alpha (frac rxPkts rxMarked) := by
  have hpkts : 0 < if rxPkts = 0 then 1 else rxPkts := by
    split_ifs
    · exact Nat.one_pos
    · omega
  rw [control] at h
  obtain ⟨measured, -, h⟩ := bind_eq_ok h
  obtain ⟨fraction, hfrac, h⟩ := bind_eq_ok h
  obtain ⟨rxRate, -, h⟩ := bind_eq_ok h
  obtain ⟨feedbackRate, -, h⟩ := bind_eq_ok h
  obtain rfl := Except.ok.inj h
  rw [markedFrac, udiv_of_pos _ hpkts] at hfrac
  obtain rfl := Except.ok.inj hfrac
  exact ⟨rfl, rfl⟩

variable [DecidableEq C]

/-- A drain that is made resets the counters of the CPUs that are online, and moves `alpha` towards
the fraction. -/
theorem isoVqDrain_eq_ok {rcpRate now dt : ℕ} {stats : C → Stats}
    (hdue : p.isoVqUpdateIntervalUs ≤ u64OfInt (ktimeUsDelta now vq.lastUpdateTime))
    (hstats : vq.percpuStats = some stats) (h : isoVqDrain p online rcpRate now dt vq = .ok vq') :
    vq'.percpuStats = some (fun c => if c ∈ online then (stats c).reset else stats c) ∧
      vq'.alpha = ewmaG16 vq.alpha (drainFrac online vq) := by
  rw [isoVqDrain, if_neg (not_lt.2 hdue)] at h
  simp only [hstats] at h
  rw [drainFrac, hstats]
  exact control_eq_ok h

/-! ### What a packet does to the counters -/

/-- The counters after the first part of `iso_vq_enqueue`. -/
def counted (c : C) (skb : Skb) (stats : C → Stats) : C → Stats :=
  Function.update stats c ((stats c).count skb)

/-- The counters after a drain. -/
def drained (online : List C) (stats : C → Stats) : C → Stats := fun c =>
  if c ∈ online then (stats c).reset else stats c

/-- The counters after `iso_vq_enqueue`. -/
def enqueued (p : Params) (online : List C) (env : RxEnv C) (skb : Skb) (vq : Vq C)
    (stats : C → Stats) :
    C → Stats :=
  let stats := counted env.cpu skb stats
  let stats := if DrainDue p env vq then drained online stats else stats
  Function.update stats env.cpu ((stats env.cpu).addBytes skb.size)

variable {window : List Skb} {stats : C → Stats}

theorem enqueued_lastFeedbackGenTime (env : RxEnv C) (skb : Skb) (vq : Vq C)
    (stats : C → Stats) (c : C) :
    (enqueued p online env skb vq stats c).lastFeedbackGenTime = (stats c).lastFeedbackGenTime := by
  have hcount : ∀ c, (counted env.cpu skb stats c).lastFeedbackGenTime =
      (stats c).lastFeedbackGenTime :=
    field_update Stats.lastFeedbackGenTime stats rfl
  have hdrain : ((if DrainDue p env vq then drained online (counted env.cpu skb stats)
      else counted env.cpu skb stats) c).lastFeedbackGenTime = (stats c).lastFeedbackGenTime := by
    rw [← hcount c]
    split_ifs
    · rw [drained]
      split_ifs
      · rfl
      · rfl
    · rfl
  rw [← hdrain]
  exact field_update Stats.lastFeedbackGenTime _ (by rfl) c

/-- The CPU that has drained the VQ has reset its own counter, too. -/
theorem enqueued_rxSinceLastFeedback {env : RxEnv C} (hc : env.cpu ∈ online)
    (hdue : DrainDue p env vq) (skb : Skb) (stats : C → Stats) :
    (enqueued p online env skb vq stats env.cpu).rxSinceLastFeedback = 0 := by
  simp only [enqueued, if_pos hdue, drained, Function.update_self, Stats.addBytes]
  rw [if_pos hc]
  rfl

theorem modifyStats_eq_ok {c : C} {f : Stats → Stats} (h : modifyStats c f vq = .ok vq') :
    ∃ stats, vq.percpuStats = some stats ∧
      vq' = { vq with percpuStats := some (Function.update stats c (f (stats c))) } := by
  rw [modifyStats] at h
  split at h
  · cases h
  · rename_i stats hstats
    exact ⟨stats, hstats, (Except.ok.inj h).symm⟩

theorem drainIfDue_eq_ok {rcpRate : ℕ} {env : RxEnv C} (hstats : vq.percpuStats = some stats)
    (h : drainIfDue p online rcpRate env vq = .ok vq') :
    vq'.percpuStats = some (if DrainDue p env vq then drained online stats else stats) ∧
      (DrainDue p env vq → vq'.alpha = ewmaG16 vq.alpha (drainFrac online vq)) := by
  by_cases hdue : DrainDue p env vq
  · rw [drainIfDue, if_pos hdue.1] at h
    obtain ⟨hreset, halpha⟩ := isoVqDrain_eq_ok hdue.2 hstats h
    rw [if_pos hdue]
    exact ⟨hreset, fun _ => halpha⟩
  · have hsame : vq' = vq := by
      rw [drainIfDue] at h
      split_ifs at h with hcall
      · -- called, but `iso_vq_drain` finds that it is too early
        have hearly : u64OfInt (ktimeUsDelta env.drainNow vq.lastUpdateTime) <
            p.isoVqUpdateIntervalUs :=
          not_le.1 fun hle => hdue ⟨hcall, hle⟩
        rw [isoVqDrain, if_pos hearly] at h
        exact (Except.ok.inj h).symm
      · exact (Except.ok.inj h).symm
    rw [hsame, if_neg hdue]
    exact ⟨hstats, fun h => absurd h hdue⟩

theorem isoVqEnqueue_eq_ok {rcpRate : ℕ} {env : RxEnv C} {skb : Skb}
    (h : isoVqEnqueue p online rcpRate env skb vq = .ok vq') :
    ∃ stats, vq.percpuStats = some stats ∧
    vq'.percpuStats = some (enqueued p online env skb vq stats) ∧
      (DrainDue p env vq → vq'.alpha = ewmaG16 vq.alpha
        (drainFrac online { vq with percpuStats := some (counted env.cpu skb stats) })) := by
  obtain ⟨vq₁, hcount, h⟩ := bind_eq_ok h
  obtain ⟨vq₂, hdrain, hbytes⟩ := bind_eq_ok h
  obtain ⟨stats, hstats, rfl⟩ := modifyStats_eq_ok hcount
  obtain ⟨hstats₂, halpha⟩ := drainIfDue_eq_ok rfl hdrain
  obtain ⟨stats₂, hstats₂', rfl⟩ := modifyStats_eq_ok hbytes
  obtain rfl := Option.some.inj (hstats₂'.symm.trans hstats₂)
  exact ⟨stats, hstats, rfl, halpha⟩

/-! ### The window -/

/-- The counters are those of the packets of the window. -/
structure Tallied (online : List C) (window : List Skb) (stats : C → Stats) : Prop where
  pkts : total online Stats.rxSinceLastFeedback stats = u32 window.length
  marked : total online Stats.rxMarkedSinceLastFeedback stats = u32 (window.countP isMarked)

/-- One CPU counts `n` more. -/
theorem total_update (hl : online.Nodup) {c : C} (hc : c ∈ online) {counter : Stats → ℕ} {n : ℕ}
    {st : Stats} (hst : counter st = u32 (counter (stats c) + n)) :
    total online counter (Function.update stats c st) = u32 (total online counter stats + n) := by
  have hwrite := sum_map_write (g := fun x => counter (stats x))
    (f := fun x => counter (Function.update stats c st x)) hl hc
    (fun x hx => by simp only [Function.update_of_ne hx])
  simp only [Function.update_self, hst] at hwrite
  simp only [total, u32] at hwrite ⊢
  omega

/-- What a CPU does to its other counters does not matter. -/
theorem total_update_same {c : C} {counter : Stats → ℕ} {st : Stats}
    (hst : counter st = counter (stats c)) :
    total online counter (Function.update stats c st) = total online counter stats := by
  simp only [total, field_update counter stats hst]

theorem total_drained {counter : Stats → ℕ} (hreset : ∀ st : Stats, counter st.reset = 0) :
    total online counter (drained online stats) = 0 := by
  have hzero : (online.map fun c => counter (drained online stats c)) = online.map fun _ => 0 := by
    apply List.map_congr_left
    intro c hc
    rw [drained, if_pos hc, hreset]
  rw [total, hzero]
  simp [u32]

theorem Tallied.update (h : Tallied online window stats) (c : C) (st : Stats)
    (hpkts : st.rxSinceLastFeedback = (stats c).rxSinceLastFeedback)
    (hmarked : st.rxMarkedSinceLastFeedback = (stats c).rxMarkedSinceLastFeedback) :
    Tallied online window (Function.update stats c st) :=
  ⟨(total_update_same hpkts).trans h.pkts, (total_update_same hmarked).trans h.marked⟩

theorem Tallied.count (h : Tallied online window stats) (hl : online.Nodup)
    {c : C} (hc : c ∈ online) (skb : Skb) :
    Tallied online (window ++ [skb]) (counted c skb stats) where
  pkts := by
    rw [counted, total_update hl hc (n := 1) rfl, h.pkts, List.length_append]
    simp only [u32, List.length_singleton]
    omega
  marked := by
    rw [counted, List.countP_append, List.countP_singleton]
    by_cases hmarked : isMarked skb
    · rw [total_update hl hc (n := 1) (by simp [Stats.count, hmarked]), h.marked, if_pos hmarked]
      simp only [u32]
      omega
    · rw [total_update_same (by simp [Stats.count, hmarked]), h.marked,
        if_neg hmarked, Nat.add_zero]

theorem tallied_drained (online : List C) (stats : C → Stats) :
    Tallied online [] (drained online stats) :=
  ⟨total_drained fun _ => rfl, total_drained fun _ => rfl⟩

/-- The window after a packet. -/
def nextWindow (p : Params) (env : RxEnv C) (skb : Skb) (vq : Vq C) (window : List Skb) :
    List Skb :=
  if DrainDue p env vq then [] else window ++ [skb]

theorem Tallied.enqueue (h : Tallied online window stats) (hl : online.Nodup) {env : RxEnv C}
    (hc : env.cpu ∈ online) (skb : Skb) (vq : Vq C) :
    Tallied online (nextWindow p env skb vq window) (enqueued p online env skb vq stats) := by
  have hmain : Tallied online (nextWindow p env skb vq window)
      (if DrainDue p env vq then drained online (counted env.cpu skb stats)
        else counted env.cpu skb stats) := by
    rw [nextWindow]
    split_ifs
    · exact tallied_drained online _
    · exact h.count hl hc skb
  exact hmain.update env.cpu (Stats.addBytes _ skb.size) rfl rfl

/-- The fraction of marked packets, for fewer than `2 ^ 22` of them. -/
theorem frac_eq {pkts marked : ℕ} (hle : marked ≤ pkts) (hlt : pkts < 2 ^ 22) :
    frac pkts marked = 1024 * marked / pkts := by
  rcases Nat.eq_zero_or_pos pkts with rfl | hpos
  · obtain rfl : marked = 0 := by omega
    rfl
  · have hden : 1024 * marked / pkts ≤ 1024 := by
      apply Nat.div_le_of_le_mul
      rw [mul_comm pkts]
      exact Nat.mul_le_mul_left 1024 hle
    rw [frac, u32_of_lt (by omega), if_neg hpos.ne', mul_comm marked]
    exact min_eq_right hden

omit [DecidableEq C] in
theorem Tallied.drainFrac_eq (h : Tallied online window stats) (hlt : window.length < 2 ^ 22)
    (hstats : vq.percpuStats = some stats) :
    drainFrac online vq = 1024 * window.countP isMarked / window.length := by
  have hle : window.countP isMarked ≤ window.length := List.countP_le_length
  rw [drainFrac, hstats]
  simp only
  rw [h.pkts, h.marked, u32_of_lt (by omega), u32_of_lt (by omega)]
  exact frac_eq hle hlt

end EyeQ.Vq
