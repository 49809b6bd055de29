import Mathlib.Data.Int.Notation
import Mathlib.Logic.Function.Basic
import EyeQ.Platform

/-!
# Setting the qdisc of a device up

`mqInit` is `mq_init` of `qdisc.c`, which makes EyeQ the root qdisc of a device.  It allocates the
array of the child qdiscs and the two contexts, calls `iso_tx_init` and `iso_rx_init`, and creates a
child for each tx queue.  Each of these steps may fail, and then `mqDestroy`, which is `mq_destroy`,
has to take back what has been done.  `MqEnv` is what the kernel answers to the calls that may fail.

`MqSched` is the private data of the qdisc, what the calls change outside of it, and a record of
what has been done, by which the two can be compared.  A fault comes with the state in which it
happened.

The contexts were set up just now, so there are no classes and no VQs, and the loops of
`iso_tx_exit` and `iso_vqs_exit` find nothing.
-/

namespace EyeQ

def enomem : ℤ := 12

def ebusy : ℤ := 16

def eopnotsupp : ℤ := 95

/-- `ISO_GSO_MAX_SIZE`. -/
def isoGsoMaxSize : ℕ := 32767

/-- What is allocated. -/
inductive Block where
  | qdiscs
  | txc
  | rxc
  /-- `rlcb` of the tx context. -/
  | rlcb
  /-- `stats` of the rx context. -/
  | stats
deriving DecidableEq

inductive Direction where
  | tx
  | rx
deriving DecidableEq

/-- A `struct list_head`. -/
inductive ListHead where
  /-- As `kzalloc` leaves it: both pointers are `NULL`. -/
  | null
  /-- Linked to itself. -/
  | self
  /-- Linked in a list. -/
  | linked
deriving DecidableEq

/-- Whose function `dev->rx_handler` is. -/
inductive RxHandler where
  | iso
  /-- That of a bridge, for example, if the device is one of its ports. -/
  | other
deriving DecidableEq

structure NetDev where
  numTxQueues : ℕ
  gsoMaxSize : ℕ
  /-- `netdev_ops` is not `NULL`. -/
  netdevOps : Bool
  rxHandler : Option RxHandler

/-- `struct iso_tx_context`, as `kzalloc` returns it at an address. -/
structure TxCtx where
  addr : ℕ
  /-- `netdev` is not `NULL`. -/
  netdev : Bool := false
  list : ListHead := .null
  /-- `rlcb` is not `NULL`. -/
  rlcb : Bool := false
  prevIsoGsoMaxSize : ℕ := 0

/-- `struct iso_rx_context`, as `kzalloc` returns it at an address. -/
structure RxCtx where
  addr : ℕ
  netdev : Bool := false
  list : ListHead := .null
  /-- `stats` is not `NULL`. -/
  stats : Bool := false
  vqList : ListHead := .null

/-- The answers of the kernel. -/
structure MqEnv where
  /-- `sch->parent` is `TC_H_ROOT`. -/
  root : Bool
  /-- `kcalloc` of the array. -/
  qdiscs : Bool
  /-- `kzalloc` of the tx context. -/
  txc : Option ℕ
  /-- `kzalloc` of the rx context. -/
  rxc : Option ℕ
  /-- `alloc_percpu` in `iso_rl_prep`. -/
  rlcb : Bool
  /-- `alloc_percpu` in `iso_rx_init`. -/
  stats : Bool
  /-- `qdisc_create_dflt` for each tx queue. -/
  child : ℕ → Bool

structure MqSched where
  dev : NetDev
  txctxList : List ℕ
  rxctxList : List ℕ
  /-- The array of the children: which of its pointers are not `NULL`. -/
  qdiscs : Option (ℕ → Bool) := none
  txc : Option TxCtx := none
  rxc : Option RxCtx := none
  allocated : List Block := []
  freed : List Block := []
  /-- `iso_tx_init` and `iso_rx_init` have returned `0`. -/
  completed : List Direction := []
  /-- `iso_tx_exit` and `iso_rx_exit` have been called. -/
  exited : List Direction := []
  created : List ℕ := []
  destroyed : List ℕ := []

namespace MqSched

/-- Before the call of `mq_init`.  The kernel has cleared the private data. -/
def start (dev : NetDev) (txctxList rxctxList : List ℕ) : MqSched where
  dev := dev
  txctxList := txctxList
  rxctxList := rxctxList

/-- The end of a call, or a fault and where it has happened. -/
abbrev Outcome (α : Type) : Type := Except (Fault × MqSched) α

def alloc (b : Block) (s : MqSched) : MqSched := { s with allocated := b :: s.allocated }

/-- `kfree` or `free_percpu`. -/
def free (b : Block) (s : MqSched) : MqSched := { s with freed := b :: s.freed }

/-- An access through a pointer. -/
def deref (valid : Bool) (s : MqSched) : Outcome Unit :=
  if valid then .ok () else .error (.wild, s)

/-- `list_del_init` of the node of the object at `addr`: what becomes of the list. -/
def listDelInit (node : ListHead) (addr : ℕ) (list : List ℕ) (s : MqSched) : Outcome (List ℕ) :=
  match node with
  | .null => .error (.wild, s)
  | .self => .ok list
  | .linked => .ok (list.erase addr)

/-! ### The contexts -/

/-- `iso_tx_init`. -/
def isoTxInit (env : MqEnv) (ctx : TxCtx) (s : MqSched) : Outcome (ℤ × MqSched) := do
  deref ctx.netdev s
  -- `iso_rl_prep`
  if ¬ env.rlcb then pure (-1, s)
  else
    let ctx := { ctx with rlcb := true, list := .linked, prevIsoGsoMaxSize := s.dev.gsoMaxSize }
    let s : MqSched := { s.alloc .rlcb with
      txc := some ctx
      txctxList := s.txctxList ++ [ctx.addr]
      dev := { s.dev with gsoMaxSize := isoGsoMaxSize } }
    -- `iso_tx_hook_init`
    if ¬ s.dev.netdevOps then pure (1, s) else pure (0, s)

/-- `iso_tx_exit`. -/
def isoTxExit (ctx : TxCtx) (s : MqSched) : Outcome MqSched := do
  let s := { s with exited := .tx :: s.exited }
  -- `iso_rl_exit` stops the tasklet and the timer of each control block
  deref ctx.rlcb s
  let txctxList ← listDelInit ctx.list ctx.addr s.txctxList s
  let s := { s with txctxList := txctxList, txc := some { ctx with list := .self } }
  deref ctx.netdev s
  let s := { s with dev := { s.dev with gsoMaxSize := ctx.prevIsoGsoMaxSize } }
  pure (s.free .rlcb)

/-- `iso_rx_init`. -/
def isoRxInit (env : MqEnv) (ctx : RxCtx) (s : MqSched) : Outcome (ℤ × MqSched) := do
  deref ctx.netdev s
  if ¬ env.stats then pure (-1, s)
  else
    let ctx := { ctx with stats := true, vqList := .self, list := .linked }
    let s : MqSched := { s.alloc .stats with
      rxc := some ctx, rxctxList := s.rxctxList ++ [ctx.addr] }
    -- `netdev_rx_handler_register`
    match s.dev.rxHandler with
    | some _ => pure (-ebusy, s)
    | none => pure (0, { s with dev := { s.dev with rxHandler := some .iso } })

/-- `iso_rx_exit`. -/
def isoRxExit (ctx : RxCtx) (s : MqSched) : Outcome MqSched := do
  let s := { s with exited := .rx :: s.exited }
  deref ctx.netdev s
  let rxctxList ← listDelInit ctx.list ctx.addr s.rxctxList s
  let s := { s with rxctxList := rxctxList, rxc := some { ctx with list := .self } }
  -- the loop of `iso_vqs_exit` begins at the list
  deref (ctx.vqList ≠ .null) s
  -- `netdev_rx_handler_unregister` does not ask whose handler it is
  let s := { s with dev := { s.dev with rxHandler := none } }
  pure (if ctx.stats then s.free .stats else s)

/-! ### The children -/

/-- The loop of `mq_destroy`, from the child of queue `ntx` on: which children it destroys. -/
def destroyChildren (qdiscs : ℕ → Bool) : ℕ → ℕ → List ℕ
  | 0, _ => []
  | left + 1, ntx => if qdiscs ntx then ntx :: destroyChildren qdiscs left (ntx + 1) else []

/-- The loop of `mq_init`, from the child of queue `ntx` on, and whether it has come to its end. -/
def createChildren (env : MqEnv) : ℕ → ℕ → MqSched → Bool × MqSched
  | 0, _, s => (true, s)
  | left + 1, ntx, s =>
    if env.child ntx then
      createChildren env left (ntx + 1) { s with
        qdiscs := s.qdiscs.map fun qdiscs => Function.update qdiscs ntx true
        created := s.created ++ [ntx] }
    else (false, s)

/-! ### The qdisc -/

/-- `mq_destroy`. -/
def mqDestroy (s : MqSched) : Outcome MqSched := do
  let s ← match s.txc with
    | some ctx => isoTxExit ctx s
    | none => pure s
  let s ← match s.rxc with
    | some ctx => isoRxExit ctx s
    | none => pure s
  let s := if s.txc.isSome then s.free .txc else s
  let s := if s.rxc.isSome then s.free .rxc else s
  match s.qdiscs with
  | none => pure s
  | some qdiscs =>
    let destroyed := destroyChildren qdiscs s.dev.numTxQueues 0
    pure ({ s with destroyed := s.destroyed ++ destroyed }.free .qdiscs)

/-- `err` in `mq_init`. -/
def fail (s : MqSched) : Outcome (ℤ × MqSched) := do
  let s ← s.mqDestroy
  pure (-enomem, s)

/-- `mq_init` from the call of `iso_tx_init` on. -/
def initContexts (env : MqEnv) (tx : TxCtx) (rx : RxCtx) (s : MqSched) : Outcome (ℤ × MqSched) := do
  let (ret, s) ← isoTxInit env tx s
  if ret ≠ 0 then s.fail
  else
    let s := { s with completed := .tx :: s.completed }
    let (ret, s) ← isoRxInit env rx s
    if ret ≠ 0 then s.fail
    else
      let s := { s with completed := .rx :: s.completed }
      let (done, s) := createChildren env s.dev.numTxQueues 0 s
      if done then pure (0, s) else s.fail

/-- `mq_init`. -/
def mqInit (env : MqEnv) (s : MqSched) : Outcome (ℤ × MqSched) :=
  if ¬ env.root then pure (-eopnotsupp, s)
  else
    let s := { s with txc := none, rxc := none }
    if ¬ env.qdiscs then pure (-enomem, { s with qdiscs := none })
    else
      let s := { s.alloc .qdiscs with qdiscs := some fun _ => false }
      match env.txc with
      | none => s.fail
      | some a =>
        let s := { s.alloc .txc with txc := some { addr := a } }
        match env.rxc with
        | none => s.fail
        | some b =>
          let tx : TxCtx := { addr := a, netdev := true }
          let rx : RxCtx := { addr := b, netdev := true }
          initContexts env tx rx { s.alloc .rxc with txc := some tx, rxc := some rx }

end MqSched

end EyeQ
