import EyeQ.DoubleCheck.Basic
import EyeQ.Host.Rx
import EyeQ.Tx.Tick

/-!
# The spacing of the periodic updates

Four updates of the module are double-checked: `iso_txc_tick`, `iso_rx_stats_update`,
`iso_rx_rcp_update`, and the installation of a rate in `iso_rx`.  Each is an `Updater`, and the
function that the rest of the development uses is the updater at work on a CPU that nothing
interrupts (`Updater.once`).

In all four the difference of the readings is kept in a `u64`.  So a CPU that another has overtaken
between its two comparisons does not find that the update has been made.  It makes it again, and the
time of the last update goes back to its own, earlier reading.
-/

namespace EyeQ

open Machine

variable {C : Type} {p : Params}

/-! ### `iso_txc_tick` -/

namespace TxTick

theorem tickClass_txcLastUpdateTime {online : List C} {dt k : ℕ} {t t' : TxTick C}
    (h : tickClass p online dt t k = .ok t') : t'.txcLastUpdateTime = t.txcLastUpdateTime := by
  obtain ⟨txRate, -, hend⟩ := bind_eq_ok h
  obtain rfl := Except.ok.inj hend
  rfl

theorem tick_txcLastUpdateTime {online : List C} {txBytes : C → ℕ} {now dt : ℕ} {t t' : TxTick C}
    (h : tick p online txBytes now dt t = .ok t') : t'.txcLastUpdateTime = now := by
  obtain ⟨txRate, -, hrest⟩ := bind_eq_ok h
  obtain ⟨rate, -, hloop⟩ := bind_eq_ok hrest
  have hends := runE_ends (P := fun t : TxTick C => t.txcLastUpdateTime = now)
    (tickClass p online dt) (E := fun _ => True)
    (fun t k (_ : True) ht => ends_of_ok fun t' ht' => (tickClass_txcLastUpdateTime ht').trans ht)
    (s := { t with
      txcLastUpdateTime := now
      txBytes := u64 (online.map txBytes).sum
      txRate := txRate
      rate := rate }) rfl fun k (_ : k ∈ t.ctx.txcList) => trivial
  exact hends.of_eq_ok hloop

/-- `iso_txc_tick`; the environment has the counters of the control blocks. -/
def updater (p : Params) (online : List C) : Updater (C → ℕ) Fault (TxTick C) where
  interval := p.isoTxcUpdateIntervalUs
  last := txcLastUpdateTime
  update := fun txBytes now dt => tick p online txBytes now dt
  last_update := fun _ _ _ _ _ => tick_txcLastUpdateTime

theorem isoTxcTick_eq_once (online : List C) (now : ℕ) (lock : Bool)
    (txBytes : C → ℕ) (t : TxTick C) :
    isoTxcTick p online now lock txBytes t = (updater p online).once txBytes now lock t := rfl

end TxTick

/-! ### `iso_rx_stats_update` and `iso_rx_rcp_update` -/

namespace RxContext

def statsUpdater (p : Params) (online : List C) : Updater Unit Fault (RxContext C) where
  interval := p.isoVqUpdateIntervalUs
  last := lastStatsUpdateTime
  update := fun _ now dt => updateStats online now dt
  last_update := by
    intro _ now dt ctx ctx' h
    obtain ⟨rate, -, hend⟩ := bind_eq_ok h
    obtain rfl := Except.ok.inj hend
    rfl

def rcpUpdater (p : Params) : Updater Unit Fault (RxContext C) where
  interval := p.isoVqHrcpUs
  last := lastRcpTime
  update := fun _ now _ => updateRcp p now
  last_update := by
    intro _ now dt ctx ctx' h
    obtain ⟨rate, -, hend⟩ := bind_eq_ok h
    obtain rfl := Except.ok.inj hend
    rfl

theorem isoRxStatsUpdate_eq_once [DecidableEq C] (online : List C) (env : RxEnv C) (skb : Skb)
    (ctx : RxContext C) :
    isoRxStatsUpdate p online env skb ctx =
      (statsUpdater p online).once () env.statsNow env.statsLock (countPacket env.cpu skb ctx) :=
      rfl

theorem isoRxRcpUpdate_eq_once (env : RxEnv C) (ctx : RxContext C) :
    isoRxRcpUpdate p env ctx = (rcpUpdater p).once () env.rcpNow env.rcpLock ctx := rfl

end RxContext

/-! ### The installation of a rate -/

namespace Host

/-- The installation of a rate in the limiter of state `i`; the environment is the rate. -/
def rateUpdater (p : Params) (i : ℕ) : Updater ℕ Fault (TxClass C) where
  interval := p.isoRfairDecreaseIntervalUs
  last := fun txc => (txc.state i).lastRfairChangeTime
  update := fun rate now _ => installRate now rate i
  last_update := by
    intro rate now dt txc txc' h
    unfold installRate at h
    split at h
    · obtain rfl := Except.ok.inj h
      simp
    · exact nomatch h

/-- A packet that carries a rate installs it as the updater does. -/
theorem installIfDue_eq_once (env : RxEnv C) (skb : Skb) (i : ℕ) (txc : TxClass C) :
    installIfDue p env skb i txc =
      if p.isoVqDrainRateMbps ≤ p.isoMaxTxRate ∧ skbHasFeedback p skb ≠ 0 then
        (rateUpdater p i).once (skbHasFeedback p skb) env.rateNow env.rcLock txc
      else pure txc := by
  by_cases hrate : p.isoVqDrainRateMbps ≤ p.isoMaxTxRate ∧ skbHasFeedback p skb ≠ 0
  · rw [installIfDue, if_pos hrate, Updater.once]
    by_cases hdue : RateDue p env (txc.state i)
    · have hnot : ¬ ((rateUpdater p i).elapsed env.rateNow txc <
          (rateUpdater (C := C) p i).interval ∨
          ¬ env.rcLock) := fun h => h.elim (not_lt.2 hdue.1) fun h => h hdue.2
      rw [if_pos ⟨hrate, hdue⟩, if_neg hnot]
      rfl
    · have hskip : (rateUpdater p i).elapsed env.rateNow txc < (rateUpdater (C := C) p i).interval ∨
          ¬ env.rcLock := by
        by_contra hnot
        rw [not_or, not_lt, not_not] at hnot
        exact hdue hnot
      rw [if_neg fun h => hdue h.2, if_pos hskip]
  · rw [installIfDue, if_neg fun h => hrate h.1, if_neg hrate]

end Host

/-! ### The four of them -/

/-- The intervals are C `int`s. -/
structure Params.IntervalsFit (p : Params) : Prop where
  txcUpdate : p.isoTxcUpdateIntervalUs < 2 ^ 31
  vqUpdate : p.isoVqUpdateIntervalUs < 2 ^ 31
  vqHrcp : p.isoVqHrcpUs < 2 ^ 31
  rfairDecrease : p.isoRfairDecreaseIntervalUs < 2 ^ 31

/-- Each of the four updates is spaced in exactly the runs in which no CPU makes it with a reading
from before the last one. -/
theorem updates_spacedIffInTime (C : Type) (hp : p.IntervalsFit) (online : List C) (i : ℕ) :
    (TxTick.updater p online).SpacedIffInTime ∧
      (RxContext.statsUpdater p online).SpacedIffInTime ∧
      (RxContext.rcpUpdater p : Updater Unit Fault (RxContext C)).SpacedIffInTime ∧
      (Host.rateUpdater p i : Updater ℕ Fault (TxClass C)).SpacedIffInTime :=
  ⟨Updater.spacedIffInTime _ hp.txcUpdate, Updater.spacedIffInTime _ hp.vqUpdate,
    Updater.spacedIffInTime _ hp.vqHrcp, Updater.spacedIffInTime _ hp.rfairDecrease⟩

/-- Two CPUs tick one after the other. -/
theorem updates_spacedIffInTime_inTurn :
    ∃ t, runE (TxTick.updater {} [false]).step (Updater.start (TxTick.init {} 0) 0)
        [.sample false 300000, .lock false (fun _ => 0) true,
          .sample true 300000, .lock true (fun _ => 0) true] = .ok t ∧
      t.log = [(300000, 300), (600000, 300)] ∧ Updater.Spaced 200 0 t.log := by
  let u := TxTick.updater {} [false]
  let start : Updater.State Bool (TxTick Bool) := Updater.start (TxTick.init {} 0) 0
  have hrun := eq_ok_endOr start (x := runE u.step start
    [.sample false 300000, .lock false (fun _ => 0) true,
      .sample true 300000, .lock true (fun _ => 0) true]) (by decide +kernel)
  refine ⟨_, hrun, by decide +kernel, ?_⟩
  refine ((updates_spacedIffInTime Bool ⟨by decide, by decide, by decide, by decide⟩ [false] 0).1
    Bool _ _ _ _ le_rfl hrun (by decide +kernel)).2 ?_
  refine guardedE_cons start trivial (guardedE_cons start ?_ (guardedE_cons start trivial
    (guardedE_cons start ?_ trivial)))
  · intro now _
    exact Nat.zero_le now
  · intro now hnow
    obtain rfl : 600000 = now := Option.some.inj (Eq.trans (by decide +kernel) hnow)
    decide +kernel

/-- One CPU reads the clock at 1 ms and another at 2 ms, and the other is first.  The tick of the
first is made with 1000 microseconds less than none, and the time of the last update goes back. -/
theorem not_spaced_overtaken :
    ∃ t, runE (TxTick.updater {} [false]).step (Updater.start (TxTick.init {} 0) 0)
        [.sample false 1000000, .sample true 1000000, .lock true (fun _ => 0) true,
          .lock false (fun _ => 0) true] = .ok t ∧
      t.log = [(2000000, 2000), (1000000, 2 ^ 64 - 1000)] ∧ t.core.txcLastUpdateTime = 1000000 ∧
      ¬ Updater.Spaced 200 0 t.log := by
  let start : Updater.State Bool (TxTick Bool) := Updater.start (TxTick.init {} 0) 0
  have hrun := eq_ok_endOr start (x := runE (TxTick.updater {} [false]).step start
    [.sample false 1000000, .sample true 1000000, .lock true (fun _ => 0) true,
      .lock false (fun _ => 0) true]) (by decide +kernel)
  have hlog : (endOr start (runE (TxTick.updater {} [false]).step start
      [.sample false 1000000, .sample true 1000000, .lock true (fun _ => 0) true,
        .lock false (fun _ => 0) true])).log = [(2000000, 2000), (1000000, 2 ^ 64 - 1000)] := by
    decide +kernel
  refine ⟨_, hrun, hlog, by decide +kernel, ?_⟩
  rw [hlog]
  rintro ⟨-, ⟨hafter, -⟩, -⟩
  exact absurd hafter (by decide)

end EyeQ
