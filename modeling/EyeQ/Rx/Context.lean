import EyeQ.Machine.Fallible
import EyeQ.Vq.Drain

/-!
# The receive context

`isoRxStatsUpdate` and `isoRxRcpUpdate` are the two controllers of a receive context, and `receive`
is `iso_rx` up to and including `iso_vq_enqueue`.  In both controllers the time is checked a second
time once the lock is held; in a call that is not interrupted the second check repeats the first.

`RxContext.Op` is what happens to a receive context: the commands that configure it and the packets
it receives.
-/

namespace EyeQ

/-- `iso_rx_classify`. -/
def isoRxClassify (skb : Skb) : UInt32 := if skb.isIp then skb.daddr else 0

namespace RxContext

variable {C : Type} [DecidableEq C]

/-- The per-CPU part of `iso_rx_stats_update`. -/
def countPacket (c : C) (skb : Skb) (ctx : RxContext C) : RxContext C :=
  let st := ctx.stats c
  let st : RxStats := ⟨u64 (st.rxBytes + skb.size), u64 (st.rxPackets + 1)⟩
  { ctx with stats := Function.update ctx.stats c st }

/-- `iso_rx_stats_update` from the assignment of `last_stats_update_time` on, `dt` microseconds
after the last.  The loop assigns `rx_packets`, where it adds up `rx_bytes`. -/
def updateStats (online : List C) (now dt : ℕ) (ctx : RxContext C) :
    Except Fault (RxContext C) := do
  let global : RxStats :=
    { rxBytes := u64 (online.map fun c => (ctx.stats c).rxBytes).sum
      -- an assignment, so the last CPU wins
      rxPackets := online.foldl (fun _ c => (ctx.stats c).rxPackets) 0 }
  let rxBytes := sub64 global.rxBytes ctx.globalStats.rxBytes
  let rate ← udiv (u64 (rxBytes * 8)) dt
  pure { ctx with
    lastStatsUpdateTime := now
    globalStatsLast := ctx.globalStats
    globalStats := global
    rxRate := u32 rate }

/-- `iso_rx_stats_update`. -/
def isoRxStatsUpdate (p : Params) (online : List C) (env : RxEnv C) (skb : Skb)
    (ctx : RxContext C) : Except Fault (RxContext C) :=
  let ctx := countPacket env.cpu skb ctx
  let dt := u64OfInt (ktimeUsDelta env.statsNow ctx.lastStatsUpdateTime)
  if dt < p.isoVqUpdateIntervalUs ∨ ¬ env.statsLock then pure ctx
  else updateStats online env.statsNow dt ctx

/-- The part of `iso_rx_rcp_update` that is done under the lock.  The time elapsed is only
compared. -/
def updateRcp (p : Params) (now : ℕ) (ctx : RxContext C) : Except Fault (RxContext C) := do
  let cap := u32 p.isoVqDrainRateMbps
  let cap2 := u32 (p.isoVqDrainRateMbps * 2)
  let rate ← udiv (u64 (ctx.rcpRate * u32OfInt ((cap2 : ℤ) + cap - ctx.rxRate))) cap2
  -- a load of more than three times the link rate wraps, as in `iso_vq_drain`
  let rate := min p.isoVqDrainRateMbps (max p.isoMinRfair rate)
  pure { ctx with rcpRate := u32 rate, lastRcpTime := now }

/-- `iso_rx_rcp_update`. -/
def isoRxRcpUpdate (p : Params) (env : RxEnv C) (ctx : RxContext C) : Except Fault (RxContext C) :=
  let dt := u64OfInt (ktimeUsDelta env.rcpNow ctx.lastRcpTime)
  if dt < p.isoVqHrcpUs ∨ ¬ env.rcpLock then pure ctx else updateRcp p env.rcpNow ctx

/-- `iso_rx` up to `iso_vq_enqueue`: the VQ of the packet, if there is one. -/
def receive (plat : Platform) (p : Params) (online : List C) (env : RxEnv C) (skb : Skb)
    (ctx : RxContext C) : Except Fault (Option ℕ × RxContext C) := do
  let ctx ← isoRxStatsUpdate p online env skb ctx
  let ctx ← isoRxRcpUpdate p env ctx
  match isoVqFind plat ctx (isoRxClassify skb) with
  | none => pure (none, ctx)
  | some v =>
    let vq ← (ctx.vqs v).isoVqEnqueue p online ctx.rcpRate env skb
    pure (some v, ctx.modifyVq v fun _ => vq)

/-! ### Runs of a receive context -/

/-- What happens to a receive context.  `assocTxcVq` is what `iso_sys_assoc_txc_vq` does to it, for
a class that is associated with `old`. -/
inductive Op (C : Type) where
  | createVq (now : ℕ) (kmalloc percpu : Bool) (klass : UInt32)
  | setVqWeight (klass : UInt32) (weight : ℤ)
  | setVqRate (klass : UInt32) (rate : ℤ)
  | assocTxcVq (old : Option ℕ) (klass : UInt32)
  | recomputeDev
  | packet (env : RxEnv C) (skb : Skb)

/-- `atomic_dec` and `atomic_inc` of the reference counts, in `iso_sys_assoc_txc_vq`. -/
def assoc (plat : Platform) (old : Option ℕ) (klass : UInt32) (ctx : RxContext C) : RxContext C :=
  match isoVqFind plat ctx klass with
  | none => ctx
  | some v =>
    let ctx := match old with
      | none => ctx
      | some o => ctx.modifyVq o fun vq => { vq with refcnt := vq.refcnt - 1 }
    ctx.modifyVq v fun vq => { vq with refcnt := vq.refcnt + 1 }

def step (plat : Platform) (p : Params) (online : List C) (ctx : RxContext C) :
    Op C → Except Fault (RxContext C)
  | .createVq now kmalloc percpu klass =>
    Prod.snd <$> isoVqInstall plat p now kmalloc percpu klass ctx
  | .setVqWeight klass weight => Prod.snd <$> isoSysSetVqWeight plat p klass weight ctx
  | .setVqRate klass rate => Prod.snd <$> isoSysSetVqRate plat p klass rate ctx
  | .assocTxcVq old klass => pure (assoc plat old klass ctx)
  | .recomputeDev => isoVqCalculateRates p ctx
  | .packet env skb => Prod.snd <$> receive plat p online env skb ctx

/-- The context after `ops`, from `iso_rx_init` on, or the fault the run ends with. -/
def runFrom (plat : Platform) (p : Params) (online : List C) (statsNow rcpNow : ℕ)
    (ops : List (Op C)) : Except Fault (RxContext C) :=
  Machine.runE (step plat p online) (init p statsNow rcpNow) ops

end RxContext

end EyeQ
