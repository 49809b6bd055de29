import EyeQ.Host.Rx

/-!
# Two hosts

`Net` is two hosts and the packets in flight between them.  Packets are delivered in any order or
lost; what `iso_rx` generates is sent to the other host.
-/

namespace EyeQ

structure Net (C : Type) where
  host : Bool → Host C
  /-- The packets in flight, each with the host it is on its way to. -/
  wire : List (Bool × Skb)

namespace Net

variable {C : Type} [DecidableEq C]

/-- What happens in the network. -/
inductive Op (C : Type) where
  /-- An operation of one host; a packet it receives in this way is from elsewhere. -/
  | host (side : Bool) (op : Host.Op C)
  /-- A host sends a packet to the other. -/
  | send (side : Bool) (skb : Skb)
  /-- The `n`-th packet in flight arrives. -/
  | deliver (n : ℕ) (env : RxEnv C)
  /-- The `n`-th packet in flight is lost. -/
  | lose (n : ℕ)

/-- A host has made a step and sends the answer, if any, to the other. -/
def become (net : Net C) (side : Bool) (r : Option Skb × Host C) : Net C where
  host := Function.update net.host side r.2
  wire := net.wire ++ r.1.toList.map fun skb => (!side, skb)

def step (plat : Platform) (p : Params) (online : List C) (net : Net C) :
    Op C → Except Fault (Net C)
  | .host side op => net.become side <$> (net.host side).step plat p online op
  | .send side skb => pure { net with wire := net.wire ++ [(!side, skb)] }
  | .deliver n env =>
    match net.wire[n]? with
    | none => pure net
    | some (side, skb) =>
      { net with wire := net.wire.eraseIdx n }.become side <$>
        (net.host side).step plat p online (.packet env skb.pulled)
  | .lose n => pure { net with wire := net.wire.eraseIdx n }

/-- Two hosts that have just been set up, each at two readings of its clock. -/
def init (p : Params) (t : Bool → ℕ × ℕ) : Net C where
  host := fun side => Host.init p (t side).1 (t side).2
  wire := []

/-- The network after `ops`, or the fault one of the hosts ends with. -/
def runFrom (plat : Platform) (p : Params) (online : List C) (t : Bool → ℕ × ℕ)
    (ops : List (Op C)) : Except Fault (Net C) :=
  Machine.runE (step plat p online) (init p t) ops

end Net

end EyeQ
