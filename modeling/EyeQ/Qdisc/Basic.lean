import EyeQ.Rl.Run

/-!
# The queueing discipline

`isoEnqueue` is `iso_enqueue` of `qdisc.c`, the function the kernel gives each outgoing packet to,
and `isoTx` the `iso_tx` it calls.  The classes and their destinations are looked up in tables that
commands change, so a packet comes with its `route`, the class and the destination that the lookups
find, or `none` when one of them fails.  The `iso_txc_tick` at the start of `iso_tx` sets the rates
of classes and is an operation of its own.

`Op` is everything that happens to the limiters of a context whose packets come in through
`iso_enqueue`.
-/

namespace EyeQ.Qdisc

open Rl

variable {K D C : Type} [DecidableEq K] [DecidableEq D] [DecidableEq C] [Fintype C]

/-- `iso_tx`, on CPU `c`. -/
def isoTx (p : Params) (k : Kernel) (route : Option (K × D)) (skb : Skb) (c : C)
    (s : TxState K D C) : IsoVerdict × TxState K D C :=
  match route with
  | none => (.pass, s)
  | some (t, d) =>
    let (verdict, s) := isoRlEnqueue p k (.dest t d) skb.isoEnableEcn c s
    (verdict, (isoRlDequeue p k (.dest t d) c s).2)

/-- `NET_XMIT_SUCCESS` and `NET_XMIT_DROP`. -/
inductive NetXmit where
  | success
  | drop
deriving DecidableEq

/-- `iso_enqueue`, on CPU `c`.  A packet with the verdict `error` is treated as one that was
queued. -/
def isoEnqueue (p : Params) (k : Kernel) (route : Option (K × D)) (skb : Skb) (c : C)
    (s : TxState K D C) : NetXmit × TxState K D C :=
  let (verdict, s) := if p.isoGlobalEnabled then isoTx p k route skb c s else (.pass, s)
  match verdict with
  | .drop => (.drop, s.log (.kfree .noRoom skb))
  | .pass => (.success, s.log (.xmit c skb))
  | .success => (.success, s)
  | .error => (.success, s)

/-! ### Operations -/

inductive Op (K D C : Type) where
  /-- The kernel gives the qdisc a packet. -/
  | enqueue (route : Option (K × D)) (c : C) (skb : Skb)
  | dequeue (r : RlId K D) (c : C)
  /-- `iso_rx` installs a rate fed back by the destination. -/
  | feedback (t : K) (d : D) (rate : ℕ)
  /-- `iso_txc_tick` or `iso_txc_recompute_rates` sets the rate of a class. -/
  | classRate (t : K) (rate : ℕ)
  | timeout (c : C)
  | tasklet (c : C)

/-- What an operation does. -/
def step (p : Params) (k : Kernel) (s : TxState K D C) : Op K D C → TxState K D C
  | .enqueue route c skb => (isoEnqueue p k route skb c s).2
  | .dequeue r c => Rl.step p k s (.dequeue r c)
  | .feedback t d rate => Rl.step p k s (.feedback t d rate)
  | .classRate t rate => Rl.step p k s (.classRate t rate)
  | .timeout c => Rl.step p k s (.timeout c)
  | .tasklet c => Rl.step p k s (.tasklet c)

/-- The state after the operations `ops`, from a context set up at the times `t`. -/
def runFrom (p : Params) (k : Kernel) (t : RlId K D → ℕ) (ops : List (Op K D C)) :
    TxState K D C :=
  Machine.run (step p k) (TxState.init p t) ops

end EyeQ.Qdisc
