import EyeQ.Machine.Fallible
import EyeQ.Rl.Limiter
import EyeQ.Tx.Context

/-!
# The rate control of the classes: `iso_txc_tick`

Every transmitted packet calls `iso_txc_tick`.  Once in an interval it measures the rate at which
the device and each class have transmitted, moves the rate of the context towards the one at which
the link is just full, and sets the rate of each class-level limiter: in proportion to the weight of
the class, not below what the class is guaranteed, and not above its cap.

`TxTick` is a tx context with what `iso_txc_tick` keeps.  Three writers set the rate of a
class-level limiter: the tick, the commands (through `iso_txc_recompute_rates`), and the limiter
itself, in `iso_rl_clock`.
-/

namespace EyeQ

/-- What `iso_txc_tick` keeps of a class: `accum_xmit` and `accum_enqueued` of its limiter, and the
rates measured. -/
structure ClassTick where
  accumXmit : ℕ := 0
  accumEnqueued : ℕ := 0
  txRate : ℕ := 0
  txRateSmooth : ℕ := 0

/-- `struct iso_tx_context`: the registry `ctx`, and what `iso_txc_tick` keeps. -/
structure TxTick (C : Type) where
  ctx : TxContext C
  classes : ℕ → ClassTick
  rate : ℕ
  txRate : ℕ
  txBytes : ℕ
  txcLastUpdateTime : ℕ

namespace TxTick

variable {C : Type}

/-- `iso_tx_init`. -/
def init (p : Params) (now : ℕ) : TxTick C where
  ctx := TxContext.init p
  classes := fun _ => {}
  rate := 2
  txRate := 0
  txBytes := 0
  txcLastUpdateTime := now

/-- `iso_rl_accum`. -/
def isoRlAccum (online : List C) (rl : Rl C) (cls : ClassTick) : ClassTick :=
  { cls with
    accumXmit := u64 (online.map fun c => (rl.queue c).bytesXmit).sum
    accumEnqueued := u64 (online.map fun c => (rl.queue c).bytesEnqueued).sum }

/-- `((bytes - last) << 3) / dt`: the rate in Mbit/s, a `u32`. -/
def measuredRate (bytes last dt : ℕ) : Except Fault ℕ :=
  u32 <$> udiv (u64 (sub64 bytes last * 8)) dt

/-- The rate that `iso_txc_tick` sets for a class, when the rate of the context is `rate`. -/
def classRate (p : Params) (rate : ℕ) (txc : TxClass C) : ℕ :=
  let rate := max txc.minRate (min p.isoMaxTxRate (u32 (rate * txc.weight)))
  if txc.isStatic then min txc.maxRate rate else rate

/-- Set the rate of the class-level limiter. -/
def setRate (p : Params) (rate : ℕ) (txc : TxClass C) : TxClass C :=
  { txc with rl := { txc.rl with rate := classRate p rate txc } }

/-- The body of the loop in `iso_txc_tick`. -/
def tickClass (p : Params) (online : List C) (dt : ℕ) (t : TxTick C) (k : ℕ) :
    Except Fault (TxTick C) := do
  let last := t.classes k
  let cls := isoRlAccum online (t.ctx.txcs k).rl last
  let txRate ← measuredRate cls.accumXmit last.accumXmit dt
  let cls := { cls with
    txRate := txRate
    txRateSmooth := u32 (last.txRateSmooth * 15 + txRate) / 16 }
  pure { t with
    classes := Function.update t.classes k cls
    ctx := t.ctx.modifyTxc k (setRate p t.rate) }

/-- The next rate of the context.  All operands are `u32`: a device that has sent at more than three
times `ISO_MAX_TX_RATE` makes the factor wrap. -/
def nextRate (p : Params) (rate txRate : ℕ) : Except Fault ℕ := do
  let rate ← udiv (u32 (rate * u32OfInt (3 * p.isoMaxTxRate - txRate))) (u32 (p.isoMaxTxRate * 2))
  pure (max p.isoMinRfair (min p.isoMaxTxRate rate))

/-- `iso_txc_tick` from the assignment of `txc_last_update_time` on, `dt` microseconds after the
last.  `txBytes` are the counters of the control blocks. -/
def tick (p : Params) (online : List C) (txBytes : C → ℕ) (now dt : ℕ) (t : TxTick C) :
    Except Fault (TxTick C) := do
  -- `iso_txctx_accum`
  let bytes := u64 (online.map txBytes).sum
  let txRate ← measuredRate bytes t.txBytes dt
  let rate ← nextRate p t.rate txRate
  let t := { t with
    txcLastUpdateTime := now
    txBytes := bytes
    txRate := txRate
    rate := rate }
  t.ctx.txcList.foldlM (tickClass p online dt) t

/-- `iso_txc_tick`, given whether `spin_trylock_irqsave` takes the lock.  The time is checked again
under the lock, with the same reading. -/
def isoTxcTick (p : Params) (online : List C) (now : ℕ) (lock : Bool)
    (txBytes : C → ℕ) (t : TxTick C) :
    Except Fault (TxTick C) :=
  let dt := u64OfInt (ktimeUsDelta now t.txcLastUpdateTime)
  if dt < p.isoTxcUpdateIntervalUs ∨ ¬ lock then pure t else tick p online txBytes now dt t

/-- The counters of the control blocks may be the `u64`s of the source. -/
theorem isoTxcTick_u64 (p : Params) (online : List C) (now : ℕ) (lock : Bool) (txBytes : C → ℕ)
    (t : TxTick C) :
    isoTxcTick p online now lock (fun c => u64 (txBytes c)) t =
      isoTxcTick p online now lock txBytes t := by
  simp only [isoTxcTick, tick, u64_sum_map_u64]

/-- And so may those of the queues. -/
theorem isoRlAccum_u64 (online : List C) (rl : Rl C) (cls : ClassTick) :
    isoRlAccum online
        { rl with queue := fun c => { rl.queue c with bytesXmit := u64 (rl.queue c).bytesXmit } }
        cls =
      isoRlAccum online rl cls := by
  simp only [isoRlAccum, u64_sum_map_u64]

/-! ### Runs -/

/-- `iso_rl_clock` of a class-level limiter, which reads the clock at `now` and, if the limiter is
due, again at `now₂`. -/
def clock (p : Params) (now now₂ : ℕ) (txc : TxClass C) : TxClass C :=
  if ktimeUsDelta now txc.rl.lastUpdateTime > p.isoRlUpdateIntervalUs then
    { txc with rl := txc.rl.refill p now₂ }
  else txc

/-- What happens to the rates of the classes.  `queue` stands for all that is done to the tokens and
the queues of a class-level limiter. -/
inductive Op (C : Type) where
  | tick (now : ℕ) (lock : Bool) (txBytes : C → ℕ)
  | clock (k : ℕ) (now now₂ : ℕ)
  | queue (k : ℕ) (totalTokens : ℕ) (queue : C → Rl.Queue)
  | createTxc (now : ℕ) (kmalloc : Bool) (rounds : List Bool) (klass : UInt32)
  | setTxcWeight (klass : UInt32) (weight : ℤ)
  | setTxcRate (klass : UInt32) (rate : ℤ)

/-- A command. -/
def command (plat : Platform) (p : Params) (op : TxContext.Op) (t : TxTick C) : TxTick C :=
  { t with ctx := t.ctx.step plat p op }

def step (plat : Platform) (p : Params) (online : List C) (t : TxTick C) :
    Op C → Except Fault (TxTick C)
  | .tick now lock txBytes => isoTxcTick p online now lock txBytes t
  | .clock k now now₂ => pure { t with ctx := t.ctx.modifyTxc k (clock p now now₂) }
  | .queue k totalTokens queue =>
    pure { t with ctx := t.ctx.modifyTxc k fun txc =>
      { txc with rl := { txc.rl with totalTokens := totalTokens, queue := queue } } }
  | .createTxc now kmalloc rounds klass =>
    pure (t.command plat p (.createTxc now kmalloc rounds klass))
  | .setTxcWeight klass weight => pure (t.command plat p (.setTxcWeight klass weight))
  | .setTxcRate klass rate => pure (t.command plat p (.setTxcRate klass rate))

/-- The context after `ops`, from `iso_tx_init` on, or the fault the run ends with. -/
def runFrom (plat : Platform) (p : Params) (online : List C) (now : ℕ) (ops : List (Op C)) :
    Except Fault (TxTick C) :=
  Machine.runE (step plat p online) (init p now) ops

end TxTick

end EyeQ
