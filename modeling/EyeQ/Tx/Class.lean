import EyeQ.Klist.Cursor
import EyeQ.Machine.Run
import EyeQ.Platform
import EyeQ.Rl.Basic
import EyeQ.Slab.Basic

/-!
# A tx class and its per-destination states

`TxClass` is `struct iso_tx_class`.  The per-destination states and the rate limiters are objects in
memory, known by their addresses; a class has its own two kinds of them, so `state` and `rls` are
what is in memory at each address, and `brk` is the first address that has not been handed out.  The
hash chains and the lists of preallocated objects are lists of addresses.

`isoStateGet` depends on where the cursors of the loop macros stand after the loop.  After the scan
of a hash chain (`Klist.scan`) the cursor is on the last entry if none matches.  After the loop over
the preallocated states the cursor is the list head, taken for a state, if the list is empty:
`Ptr.listHead`.
-/

namespace EyeQ

/-- A pointer to an object. -/
inductive Ptr where
  | null
  | obj (addr : ℕ)
  /-- The head of a list, taken for an entry of it. -/
  | listHead
deriving DecidableEq

/-- `struct iso_per_dest_state`. -/
structure PerDestState where
  ipKey : UInt32
  rl : Ptr
  /-- `tx_rc.last_rfair_change_time`. -/
  lastRfairChangeTime : ℕ

/-- `struct iso_tx_class`. -/
structure TxClass (C : Type) where
  klass : UInt32
  /-- The address of the VQ. -/
  vq : Option ℕ
  /-- The class-level limiter, `txc->rl`. -/
  rl : Rl C
  weight : ℕ
  minRate : ℕ
  maxRate : ℕ
  isStatic : Bool
  stateBucket : UInt32 → List ℕ
  rlBucket : UInt32 → List ℕ
  preallocStateList : List ℕ
  preallocRlList : List ℕ
  freelistCount : ℤ
  state : ℕ → PerDestState
  rls : ℕ → Rl C
  brk : ℕ

namespace TxClass

variable {C : Type}

/-- `iso_txc_init`, at time `now`. -/
def init (p : Params) (now : ℕ) (klass : UInt32) : TxClass C where
  klass := klass
  vq := none
  rl := Rl.init C p now
  weight := 1
  minRate := p.isoMaxTxRate
  maxRate := p.isoMaxTxRate
  isStatic := false
  stateBucket := fun _ => []
  rlBucket := fun _ => []
  preallocStateList := []
  preallocRlList := []
  freelistCount := 0
  state := fun _ => ⟨0, .null, 0⟩
  rls := fun _ => Rl.init C p now
  brk := 0

/-! ### Preallocation -/

/-- One round of `iso_txc_prealloc` whose allocations succeed. -/
def preallocOne (p : Params) (now : ℕ) (txc : TxClass C) : TxClass C :=
  { txc with
    freelistCount := txc.freelistCount + 1
    preallocStateList := txc.preallocStateList ++ [txc.brk]
    preallocRlList := txc.preallocRlList ++ [txc.brk]
    state := Function.update txc.state txc.brk ⟨0, .null, now⟩
    rls := Function.update txc.rls txc.brk (Rl.init C p now)
    brk := txc.brk + 1 }

/-- `iso_txc_prealloc`, with whether the allocations of each round succeed.  The first failure ends
the loop. -/
def isoTxcPrealloc (p : Params) (now : ℕ) : List Bool → TxClass C → TxClass C
  | [], txc => txc
  | ok :: rounds, txc => if ok then isoTxcPrealloc p now rounds (preallocOne p now txc) else txc

/-! ### Looking up a destination -/

/-- The index of an address in `state_bucket`. -/
def stateHash (plat : Platform) (ip : UInt32) : UInt32 :=
  plat.jhash1word ip 0xfacedead &&& bucketMask

/-- The index of an address in `rl_bucket`. -/
def rlHash (plat : Platform) (ip : UInt32) : UInt32 :=
  plat.jhash1word ip 0xfaceface &&& bucketMask

/-- The address of the other end: of the destination, or of the source of a received packet. -/
def peer (plat : Platform) (skb : Skb) (rx : Bool) : UInt32 :=
  plat.ntohl (if rx then skb.saddr else skb.daddr)

/-- `iso_pick_rl`. -/
def isoPickRl (plat : Platform) (txc : TxClass C) (ip : UInt32) : Ptr × TxClass C :=
  match (txc.rlBucket (rlHash plat ip)).find? fun j => (txc.rls j).ip = ip with
  | some j => (.obj j, txc)
  | none =>
    match txc.preallocRlList with
    | [] => (.listHead, txc) -- the loop has not run, and its cursor is not `NULL`
    | j :: rest =>
      (.obj j, { txc with
        rls := Function.update txc.rls j { txc.rls j with ip := ip }
        rlBucket := addHead txc.rlBucket (rlHash plat ip) j
        preallocRlList := rest })

/-- The cursor after the loop over the hash chain of an address. -/
def scanState (plat : Platform) (txc : TxClass C) (ip : UInt32) : Option ℕ :=
  Klist.scan (fun i => (txc.state i).ipKey = ip) (txc.stateBucket (stateHash plat ip)) none

/-- The body of the loop over the preallocated states, for the first of them.  A limiter that is
`NULL` would leave it where it is. -/
def takeState (plat : Platform) (now : ℕ) (txc : TxClass C) (ip : UInt32) (i : ℕ)
    (rest : List ℕ) : TxClass C :=
  let (rl, txc) := isoPickRl plat txc ip
  if rl = .null then
    { txc with state := Function.update txc.state i { txc.state i with ipKey := ip, rl := rl } }
  else
    { txc with
      state := Function.update txc.state i ⟨ip, rl, now⟩
      stateBucket := addHead txc.stateBucket (stateHash plat ip) i
      preallocStateList := rest
      freelistCount := txc.freelistCount - 1 }

/-- `iso_state_get`, given whether `spin_trylock(&txc->writelock)` takes the lock.  `now` is what
`iso_rc_init` reads. -/
def isoStateGet (plat : Platform) (now : ℕ) (txc : TxClass C) (skb : Skb)
    (rx create trylock : Bool) : Ptr × TxClass C :=
  if ¬ skb.isIp then (.null, txc)
  else
    let ip := peer plat skb rx
    match scanState plat txc ip with
    | some i => (.obj i, txc)
    | none =>
      if ¬ create ∨ ¬ trylock then (.null, txc)
      else
        -- "Check again", now under the lock
        match scanState plat txc ip with
        | some i => (.obj i, txc)
        | none =>
          match txc.preallocStateList with
          | [] => (.listHead, txc)
          | i :: rest => (.obj i, takeState plat now txc ip i rest)

/-! ### Runs of one class -/

/-- What can happen to the per-destination states and limiters of a class.  `limiter` stands for
everything the limiter functions and the feedback of a peer do to a limiter, and `rateControl` for
what they do to the rate-control part of a state: neither writes an address. -/
inductive Op (C : Type) where
  | stateGet (now : ℕ) (skb : Skb) (rx create trylock : Bool)
  | prealloc (now : ℕ) (rounds : List Bool)
  | limiter (j : ℕ) (rl : Rl C)
  | rateControl (i : ℕ) (lastRfairChangeTime : ℕ)

def step (plat : Platform) (p : Params) (txc : TxClass C) : Op C → TxClass C
  | .stateGet now skb rx create trylock => (isoStateGet plat now txc skb rx create trylock).2
  | .prealloc now rounds => isoTxcPrealloc p now rounds txc
  | .limiter j rl =>
    { txc with rls := Function.update txc.rls j { rl with ip := (txc.rls j).ip } }
  | .rateControl i t =>
    let state := { txc.state i with lastRfairChangeTime := t }
    { txc with state := Function.update txc.state i state }

/-- The class after `ops`, from `iso_txc_init` on. -/
def runFrom (plat : Platform) (p : Params) (now : ℕ) (klass : UInt32) (ops : List (Op C)) :
    TxClass C :=
  Machine.run (step plat p) (init p now klass) ops

/-! ### The same in pieces

Calls of `iso_state_get` and rounds of `iso_txc_prealloc` on different CPUs interleave, and what
they change they change under `writelock`.  The scan before `spin_trylock` writes nothing, so a call
that has found nothing goes on in whatever state the class is in when it has taken the lock. -/

/-- `iso_state_get` from `spin_trylock` to `spin_unlock`. -/
def createState (plat : Platform) (now : ℕ) (txc : TxClass C) (ip : UInt32) : Ptr × TxClass C :=
  match scanState plat txc ip with
  | some i => (.obj i, txc)
  | none =>
    match txc.preallocStateList with
    | [] => (.listHead, txc)
    | i :: rest => (.obj i, takeState plat now txc ip i rest)

/-- What is done in one piece. -/
inductive Piece (C : Type) where
  /-- A call of `iso_state_get` has taken the lock. -/
  | createState (now : ℕ) (ip : UInt32)
  /-- A round of `iso_txc_prealloc`, and whether its allocations succeed. -/
  | round (now : ℕ) (ok : Bool)
  | limiter (j : ℕ) (rl : Rl C)
  | rateControl (i : ℕ) (lastRfairChangeTime : ℕ)

def stepPiece (plat : Platform) (p : Params) (txc : TxClass C) : Piece C → TxClass C
  | .createState now ip => (createState plat now txc ip).2
  | .round now ok => isoTxcPrealloc p now [ok] txc
  | .limiter j rl => step plat p txc (.limiter j rl)
  | .rateControl i t => step plat p txc (.rateControl i t)

/-- The class after the pieces `pieces`, from `iso_txc_init` on. -/
def runPieces (plat : Platform) (p : Params) (now : ℕ) (klass : UInt32) (pieces : List (Piece C)) :
    TxClass C :=
  Machine.run (stepPiece plat p) (init p now klass) pieces

end TxClass

end EyeQ
