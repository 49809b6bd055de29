import EyeQ.Dev.Basic

/-!
# Building VQs and classes when memory is short

`Build` is a device together with the pointers that a failed allocation may leave `NULL`:
`rl->queue` of the limiter of each class, and of the limiters of its destinations.  (The counters of
a VQ are in `Vq.percpuStats`.)  Every allocation is an input of the operations: that of the object,
that of the queues of its limiter, and the four of each round of `iso_txc_prealloc`, which
`iso_txc_alloc` runs when it builds a class and `iso_txc_allocator` in the background.

`iso_rl_init` does not look at what `alloc_percpu` returns, and sets the queues up through it.
Through `NULL` it writes to where the per-CPU areas begin.  `mapped` says whether there is memory,
as there is on x86-64: then the writes destroy what is there, and the function returns.  Otherwise
the first of them faults.
-/

namespace EyeQ

variable {C : Type}

/-- What becomes of the allocations of a round of `iso_txc_prealloc`. -/
structure Round where
  /-- `kmalloc` of the state. -/
  state : Bool
  /-- `alloc_percpu` of `state->tx_rc.stats`. -/
  stats : Bool
  /-- `kmalloc` of the limiter. -/
  rl : Bool
  /-- `alloc_percpu` of `rl->queue`. -/
  queue : Bool
deriving DecidableEq

/-- The round links a state and a limiter; otherwise the loop ends. -/
def Round.links (r : Round) : Bool := r.state && r.stats && r.rl

/-- A device, and which limiters have queues. -/
structure Build (C : Type) extends Dev C where
  /-- `txc->rl.queue` is not `NULL`, for the class at each address. -/
  rlQueue : ℕ → Bool
  /-- `rl->queue` is not `NULL`, for the limiters of the class at each address. -/
  queue : ℕ → ℕ → Bool

namespace Dev

/-- The command creates a class or a VQ. -/
def Op.creates : Op → Bool
  | .createTxc .. => true
  | .createVq .. => true
  | _ => false

end Dev

namespace Build

def init (p : Params) (statsNow rcpNow : ℕ) : Build C where
  toDev := .init p statsNow rcpNow
  rlQueue := fun _ => false
  queue := fun _ _ => false

section

variable (mapped : Bool)

/-- `iso_rl_init`: whether `rl->queue` is not `NULL` when it returns, given whether `alloc_percpu`
succeeds. -/
def isoRlInit (queue : Bool) : Except Halt Bool :=
  if queue || mapped then .ok queue else .error (.fault .wild)

/-- `iso_txc_prealloc`: which of the limiters that it links have queues. -/
def preallocQueues : List Round → Except Halt (List Bool)
  | [] => .ok []
  | r :: rounds =>
    if r.links then do
      let queue ← isoRlInit mapped r.queue
      let queues ← preallocQueues rounds
      pure (queue :: queues)
    else .ok []

/-- The limiters at `brk` and behind it are new. -/
def withQueues (brk : ℕ) (queues : List Bool) (old : ℕ → Bool) : ℕ → Bool := fun j =>
  if brk ≤ j then (queues[j - brk]?).getD (old j) else old j

variable (plat : Platform) (p : Params)

/-- `iso_txc_mark_install`, for the class that its argument names. -/
def isoTxcMarkInstall (now : ℕ) (kmalloc : Alloc) (queue : Bool)
    (rounds : List Round) (klass : UInt32) (s : Build C) : Except Halt (ℤ × Build C) :=
  match s.tx.isoTxcFind plat klass, kmalloc.addr s.tx.brk s.tx.freed with
  | none, some k => do
    let rlQueue ← isoRlInit mapped queue
    let queues ← preallocQueues mapped rounds
    let (ret, d) ← s.toDev.isoTxcAlloc plat p now k (rounds.map Round.links) klass
    pure (ret, {
      toDev := d
      rlQueue := Function.update s.rlQueue k rlQueue
      queue := Function.update s.queue k (withQueues 0 queues fun _ => false) })
  | _, _ => pure (-1, s)

/-- `iso_txc_allocator`, for the class at `k`. -/
def isoTxcAllocator (k now : ℕ) (rounds : List Round) (s : Build C) : Except Halt (Build C) := do
  let queues ← preallocQueues mapped rounds
  let tx := s.tx.modifyTxc k (TxClass.isoTxcPrealloc p now (rounds.map Round.links))
  let queue := Function.update s.queue k (withQueues (s.tx.txcs k).brk queues (s.queue k))
  pure { s with tx := tx, queue := queue }

end

/-! ### Runs -/

inductive Op where
  | createVq (now : ℕ) (kmalloc : Alloc) (percpu : Bool) (stale : ℤ) (klass : UInt32)
  | createTxc (now : ℕ) (kmalloc : Alloc) (queue : Bool) (rounds : List Round) (klass : UInt32)
  | allocator (k now : ℕ) (rounds : List Round)
  /-- A packet is looked up in the class at `k`. -/
  | stateGet (k now : ℕ) (skb : Skb) (rx create trylock : Bool)
  /-- A command that creates nothing. -/
  | command (op : Dev.Op) (hop : op.creates = false)

/-- What an operation returns, and the device after it. -/
def exec (mapped : Bool) (plat : Platform) (p : Params) (s : Build C) :
    Op → Except Halt (ℤ × Build C)
  | .createVq now kmalloc percpu stale klass => do
    let (ret, d) ← s.toDev.isoVqInstall plat p now kmalloc percpu stale klass
    pure (ret, { s with toDev := d })
  | .createTxc now kmalloc queue rounds klass =>
    s.isoTxcMarkInstall mapped plat p now kmalloc queue rounds klass
  | .allocator k now rounds => do
    let s ← s.isoTxcAllocator mapped p k now rounds
    pure (0, s)
  | .stateGet k now skb rx create trylock =>
    let tx := s.tx.modifyTxc k fun txc => (txc.isoStateGet plat now skb rx create trylock).2
    pure (0, { s with tx := tx })
  | .command op _ => do
    let (ret, d) ← s.toDev.exec plat p op
    pure (ret, { s with toDev := d })

def step (mapped : Bool) (plat : Platform) (p : Params) (s : Build C) (op : Op) :
    Except Halt (Build C) :=
  Prod.snd <$> s.exec mapped plat p op

end Build

end EyeQ
