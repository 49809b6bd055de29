import EyeQ.Node.Basic

/-!
# Servers and the network between them

A `Server` is a machine with EyeQ on its device: the transmitting side and the receive context.  Its
operations are the packets that its kernel sends, the commands, the refilling of the pools, timers
and tasklets; and `receive`, with which `iso_rx` changes both contexts at once.  Limiters are set up
and rates installed at readings of the server's clock; the other times of `iso_rx` are free.

A `Fabric` is any number of servers and the packets in flight between them.  What a device transmits
and what `iso_generate_feedback` sends is put on the wire.  A packet arrives at the server where its
destination address lives, in any order; it may be lost, arrive twice, or be marked by a switch.
-/

namespace EyeQ

/-- The packet that is handed to the device. -/
def Rl.Event.transmitted? {K D C : Type} : Rl.Event K D C → Option Skb
  | .xmit _ skb => some skb
  | _ => none

structure Server (C : Type) where
  node : Node C
  rx : RxContext C

namespace Server

variable {C : Type}

/-- The two contexts. -/
def host (s : Server C) : Host C := ⟨s.rx, s.node.tick.ctx⟩

/-- The commands that delete nothing. -/
inductive Command where
  | createTxc (kmalloc : Bool) (rounds : List Bool) (klass : UInt32)
  | setTxcWeight (klass : UInt32) (weight : ℤ)
  | setTxcRate (klass : UInt32) (rate : ℤ)
  | createVq (kmalloc percpu : Bool) (klass : UInt32)
  | setVqWeight (klass : UInt32) (weight : ℤ)
  | setVqRate (klass : UInt32) (rate : ℤ)
  | assocTxcVq (txclass vqclass : UInt32)
  | recomputeDev

/-- The command at the time `now`. -/
def Command.op (now : ℕ) : Command → Host.Op C
  | .createTxc kmalloc rounds klass => .createTxc now kmalloc rounds klass
  | .setTxcWeight klass weight => .setTxcWeight klass weight
  | .setTxcRate klass rate => .setTxcRate klass rate
  | .createVq kmalloc percpu klass => .createVq now kmalloc percpu klass
  | .setVqWeight klass weight => .setVqWeight klass weight
  | .setVqRate klass rate => .setVqRate klass rate
  | .assocTxcVq txclass vqclass => .assocTxcVq txclass vqclass
  | .recomputeDev => .recomputeDev

inductive Op (C : Type) where
  /-- The kernel gives a packet to `iso_enqueue` on CPU `c`; `lock` is for the `iso_txc_tick` in
  it. -/
  | enqueue (c : C) (skb : Skb) (lock : Bool)
  | command (cmd : Command)
  /-- `iso_txc_allocator`, for the class at `k`. -/
  | prealloc (k : ℕ) (rounds : List Bool)
  | timeout (c : C)
  | tasklet (c : C)

variable [DecidableEq C] [Fintype C]

/-- An operation of the transmitting side. -/
def onNode (plat : Platform) (p : Params) (kern : Kernel) (online : List C)
    (op : Node.Op C) (s : Server C) :
    Except Fault (Server C) := do
  let node ← s.node.step plat p kern online op
  pure { s with node := node }

def step (plat : Platform) (p : Params) (kern : Kernel) (online : List C) (s : Server C) :
    Op C → Except Fault (Server C)
  | .enqueue c skb lock => s.onNode plat p kern online
      (.enqueue c skb (kern.ktime s.node.reads) lock)
  | .command cmd => do
    let (_, h) ← s.host.step plat p online (cmd.op (kern.ktime s.node.reads))
    pure ⟨s.node.setCtx h.tx, h.rx⟩
  | .prealloc k rounds => s.onNode plat p kern online (.prealloc k (kern.ktime s.node.reads) rounds)
  | .timeout c => s.onNode plat p kern online (.timeout c)
  | .tasklet c => s.onNode plat p kern online (.tasklet c)

/-- What `iso_rx` does to the device: nothing, if there is no VQ for the packet. -/
def rxNode (plat : Platform) (p : Params) (kern : Kernel) (env : RxEnv C)
    (skb : Skb) (s : Server C) :
    Except Fault (Node C) :=
  match s.rx.isoVqFind plat (isoRxClassify skb) with
  | none => pure s.node
  | some _ => s.node.rx plat p kern env skb

/-- `iso_rx`: what `iso_generate_feedback` sends, and the server.  `rxNode` makes the same changes
to the tx context as `Host.isoRx` (`isoRx_host`), and counts the reading of the clock. -/
def isoRx (plat : Platform) (p : Params) (kern : Kernel) (online : List C)
    (env : RxEnv C) (skb : Skb) (s : Server C) : Except Fault (Option Skb × Server C) := do
  let env := { env with rateNow := kern.ktime s.node.reads }
  let (out, h) ← s.host.isoRx plat p online env skb
  let node ← s.rxNode plat p kern env skb
  pure (out.feedback.join, ⟨node, h.rx⟩)

/-- `iso_rx_handler`, for a packet from the network. -/
def receive (plat : Platform) (p : Params) (kern : Kernel) (online : List C)
    (env : RxEnv C) (skb : Skb) (s : Server C) : Except Fault (Option Skb × Server C) :=
  if p.isoGlobalEnabled then s.isoRx plat p kern online env skb else pure (none, s)

/-- A server after `iso_tx_init` and `iso_rx_init`, at time `now`. -/
def init (p : Params) (now : ℕ) : Server C := ⟨Node.init p now, RxContext.init p now now⟩

/-- The packets that have been handed to the device between two states. -/
def transmitted (s s' : Server C) : List Skb :=
  (s'.node.trace.drop s.node.trace.length).filterMap Rl.Event.transmitted?

end Server

/-- The servers `H` and what surrounds them. -/
structure Site (H C : Type) where
  plat : Platform
  p : Params
  kern : H → Kernel
  /-- The CPUs that are online. -/
  online : H → List C
  /-- The server on which an address lives. -/
  home : UInt32 → H

structure Fabric (H C : Type) where
  server : H → Server C
  /-- The packets in flight. -/
  wire : List Skb

namespace Fabric

variable {H C : Type} [DecidableEq H] [DecidableEq C] [Fintype C]

inductive Op (H C : Type) where
  | server (h : H) (op : Server.Op C)
  /-- The `n`-th packet in flight arrives.  A packet that has no address arrives at `h`. -/
  | deliver (n : ℕ) (h : H) (env : RxEnv C)
  | lose (n : ℕ)
  | duplicate (n : ℕ)
  /-- A switch marks the `n`-th packet in flight. -/
  | mark (n : ℕ)

def step (S : Site H C) (fab : Fabric H C) : Op H C → Except Fault (Fabric H C)
  | .server h op => do
    let s ← (fab.server h).step S.plat S.p (S.kern h) (S.online h) op
    pure ⟨Function.update fab.server h s, fab.wire ++ (fab.server h).transmitted s⟩
  | .deliver n h env =>
    match fab.wire[n]? with
    | none => pure fab
    | some skb => do
      let h := if skb.isIp then S.home skb.daddr else h
      let (fb, s) ← (fab.server h).receive S.plat S.p (S.kern h) (S.online h) env skb.pulled
      pure ⟨Function.update fab.server h s, fab.wire.eraseIdx n ++ fb.toList⟩
  | .lose n => pure { fab with wire := fab.wire.eraseIdx n }
  | .duplicate n => pure { fab with wire := fab.wire ++ fab.wire[n]?.toList }
  | .mark n => pure { fab with wire := fab.wire.modify n fun skb =>
      { skb with tos := skb.tos ||| 0x3 } }

/-- Servers that have just been set up. -/
def init (S : Site H C) : Fabric H C where
  server := fun h => Server.init S.p ((S.kern h).ktime 0)
  wire := []

/-- The fabric after `ops`, or the fault that one of the servers ends with. -/
def runFrom (S : Site H C) (ops : List (Op H C)) : Except Fault (Fabric H C) :=
  Machine.runE (step S) (init S) ops

end Fabric

end EyeQ
