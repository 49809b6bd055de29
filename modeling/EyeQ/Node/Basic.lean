import EyeQ.Host.Rx
import EyeQ.Qdisc.Basic
import EyeQ.Tx.Tick

/-!
# The transmitting side of a device

`Node` is `struct iso_tx_context` with all that it has: the registry of the classes with their
states and limiters, what `iso_txc_tick` keeps, and the control blocks.  The limiters are objects of
the classes, and classes, states and limiters come into being while packets are sent.

`route` is the way of a packet through `iso_tx` up to `iso_rl_enqueue`: the class of its source
address, the state that `iso_state_get` finds there, and the limiter of that state.  `rx` is the
part of `iso_rx` that works on the tx context: it makes a state for the peer, and installs the rate
that the peer has sent.

`view` shows the limiters as the functions of `rl.c` see them, the limiter `RlId.dest k j` being the
one at the address `j` of the class at the address `k`, and `put` writes them back.
-/

namespace EyeQ

/-- `iso_txc_classify`. -/
def isoTxcClassify (skb : Skb) : UInt32 := if skb.isIp then skb.saddr else 0

/-- The commands that delete no class. -/
def TxContext.Op.Keeps : TxContext.Op → Prop
  | .deleteTxc _ => False
  | _ => True

/-- `struct iso_tx_context`, with its `rlcb`. -/
structure Node (C : Type) where
  tick : TxTick C
  cb : C → Rl.Cb ℕ ℕ C
  reads : ℕ
  tries : ℕ
  trace : List (Rl.Event ℕ ℕ C)

namespace Node

variable {C : Type}

/-! ### The limiters -/

def limiter (ctx : TxContext C) : RlId ℕ ℕ → Rl C
  | .txc k => (ctx.txcs k).rl
  | .dest k j => (ctx.txcs k).rls j

def view (n : Node C) : TxState ℕ ℕ C := ⟨limiter n.tick.ctx, n.cb, n.reads, n.tries, n.trace⟩

/-- The class at `k` with the limiters that `f` has for it. -/
def withLimiters (f : RlId ℕ ℕ → Rl C) (k : ℕ) (txc : TxClass C) : TxClass C :=
  { txc with rl := f (.txc k), rls := fun j => f (.dest k j) }

def setCtx (n : Node C) (ctx : TxContext C) : Node C :=
  { n with tick := { n.tick with ctx := ctx } }

def put (n : Node C) (s : TxState ℕ ℕ C) : Node C where
  tick := { n.tick with
    ctx := { n.tick.ctx with txcs := fun k => withLimiters s.rl k (n.tick.ctx.txcs k) } }
  cb := s.cb
  reads := s.reads
  tries := s.tries
  trace := s.trace

/-! ### Looking up a limiter -/

/-- The limiter that `iso_tx` finds for a packet, as the addresses of its class and of itself.  No
state is created, so the class stays as it is. -/
def route (plat : Platform) (ctx : TxContext C) (skb : Skb) : Except Fault (Option (ℕ × ℕ)) :=
  match ctx.isoTxcFind plat (isoTxcClassify skb) with
  | none => pure none
  | some k =>
    match (TxClass.isoStateGet plat 0 (ctx.txcs k) skb false false false).1 with
    | .null => pure none
    | .listHead => .error .wild
    | .obj i =>
      match ((ctx.txcs k).state i).rl with
      | .obj j => pure (some (k, j))
      | _ => .error .wild

/-! ### Operations -/

inductive Op (C : Type) where
  /-- `iso_enqueue` of a packet on CPU `c`; `now` and `lock` are for the `iso_txc_tick` in it. -/
  | enqueue (c : C) (skb : Skb) (now : ℕ) (lock : Bool)
  /-- `iso_rx` receives a packet for which there is a VQ. -/
  | rx (env : RxEnv C) (skb : Skb)
  | command (op : TxContext.Op) (hkeeps : op.Keeps)
  /-- `iso_txc_allocator`, for the class at `k`. -/
  | prealloc (k now : ℕ) (rounds : List Bool)
  | timeout (c : C)
  | tasklet (c : C)

variable [DecidableEq C] [Fintype C]

/-- `iso_enqueue`. -/
def enqueue (plat : Platform) (p : Params) (kern : Kernel) (online : List C) (c : C)
    (skb : Skb) (now : ℕ) (lock : Bool) (n : Node C) : Except Fault (Node C) :=
  if p.isoGlobalEnabled then do
    let tick ← n.tick.isoTxcTick p online now lock fun c => (n.cb c).txBytes
    let n := { n with tick := tick }
    let route ← route plat n.tick.ctx skb
    pure (n.put (Qdisc.isoEnqueue p kern route skb c n.view).2)
  else pure (n.put (Qdisc.isoEnqueue p kern none skb c n.view).2)

/-- `iso_rx` installs the rate that the packet carries in the limiter of the state. -/
def Installs (p : Params) (env : RxEnv C) (skb : Skb) (txc : TxClass C) : Ptr → Prop
  | .obj i => (p.isoVqDrainRateMbps ≤ p.isoMaxTxRate ∧ skbHasFeedback p skb ≠ 0) ∧
      Host.RateDue p env (txc.state i)
  | _ => False

instance (p : Params) (env : RxEnv C) (skb : Skb) (txc : TxClass C) (state : Ptr) :
    Decidable (Installs p env skb txc state) :=
  match state with
  | .obj _ => inferInstanceAs (Decidable (_ ∧ _))
  | .null => inferInstanceAs (Decidable False)
  | .listHead => inferInstanceAs (Decidable False)

/-- What `iso_rx` does to the tx context.  A reading of the clock counts if it is used. -/
def rx (plat : Platform) (p : Params) (kern : Kernel) (env : RxEnv C) (skb : Skb) (n : Node C) :
    Except Fault (Node C) :=
  match n.tick.ctx.isoTxcFind plat (isoRxClassify skb) with
  | none => pure n
  | some k => do
    let env := { env with rateNow := kern.ktime n.reads }
    let (state, txc) := TxClass.isoStateGet plat env.stateNow (n.tick.ctx.txcs k) skb true
      (isoIsFeedbackMarked p skb) env.writelock
    let (_, _, txc') ← Host.useState p env skb txc state
    pure { n.setCtx (n.tick.ctx.modifyTxc k fun _ => txc') with
      reads := if Installs p env skb txc state then n.reads + 1 else n.reads }

def step (plat : Platform) (p : Params) (kern : Kernel) (online : List C) (n : Node C) :
    Op C → Except Fault (Node C)
  | .enqueue c skb now lock => n.enqueue plat p kern online c skb now lock
  | .rx env skb => n.rx plat p kern env skb
  | .command op _ => pure (n.setCtx (n.tick.ctx.step plat p op))
  | .prealloc k now rounds =>
    pure (n.setCtx (n.tick.ctx.modifyTxc k (TxClass.isoTxcPrealloc p now rounds)))
  | .timeout c => pure (n.put (Rl.isoRlTimeout c n.view))
  | .tasklet c => pure (n.put (Rl.isoRlXmitTasklet p kern c n.view))

/-- A device after `iso_tx_init`, at time `now`. -/
def init (p : Params) (now : ℕ) : Node C where
  tick := TxTick.init p now
  cb := fun _ => {}
  reads := 0
  tries := 0
  trace := []

/-- The device after `ops`, or the fault the run ends with. -/
def runFrom (plat : Platform) (p : Params) (kern : Kernel) (online : List C) (now : ℕ)
    (ops : List (Op C)) :
    Except Fault (Node C) :=
  Machine.runE (step plat p kern online) (init p now) ops

/-! ### The view -/

omit [DecidableEq C] [Fintype C]

@[simp] theorem view_put (n : Node C) (s : TxState ℕ ℕ C) : (n.put s).view = s := by
  unfold view put
  congr 1
  funext r
  cases r <;> rfl

end Node

end EyeQ
