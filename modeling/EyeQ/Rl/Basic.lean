import EyeQ.Skb
import Mathlib.Data.Fintype.Basic
import Mathlib.Logic.Function.Basic
import Mathlib.Order.Monotone.Basic

/-!
# Rate limiters: state

A tx context has classes `K`.  Class `k` has a class-level limiter (`RlId.txc k`, the source's
`txc->rl`, whose `rl->txc` is `NULL`) and a limiter `RlId.dest k d` for each destination `d`
(`rl->txc` is the class).  A limiter has a token pool and one queue per CPU `C`; each CPU has a
control block with the list of the queues that wait for its timer.

`Kernel` is what the code takes from outside: the clock readings in the order in which they are
made, the outcome of each `spin_trylock`, and `skb_gso_segment`.  `TxState.reads` and
`TxState.tries` count the readings and the attempts made so far.

`TxState.trace` is a history variable.  No modelled function reads it; it records the packets
accepted, segmented, trimmed, freed and transmitted, the packets found at the head of a queue, and
the operands of each charge.
-/

namespace EyeQ

/-- `enum iso_verdict`. -/
inductive IsoVerdict where
  | success
  | drop
  | pass
  | error
deriving DecidableEq

/-- The environment of a run. -/
structure Kernel where
  /-- The `n`-th reading of `ktime_get`, in nanoseconds. -/
  ktime : ℕ → ℕ
  ktime_mono : Monotone ktime
  /-- Whether the `n`-th `spin_trylock` of a limiter's lock takes it. -/
  trylock : ℕ → Bool
  /-- `skb_gso_segment`: the segments of a packet, or `none` for an error. -/
  skbGsoSegment : Skb → Option (List Skb)

/-- A clock that stands still. -/
theorem Kernel.monotone_stopped : Monotone fun _ : ℕ => 0 := monotone_const

/-- A clock that moves on by a tenth of a millisecond with each reading. -/
theorem Kernel.monotone_steady : Monotone fun n : ℕ => n * 100000 :=
  fun _ _ h => Nat.mul_le_mul_right _ h

/-- A kernel in which no time passes, no lock is free, and no packet can be segmented. -/
def Kernel.still : Kernel where
  ktime _ := 0
  ktime_mono := Kernel.monotone_stopped
  trylock _ := false
  skbGsoSegment _ := none

/-- A kernel in which time passes, no lock is contended, and no packet can be segmented. -/
def Kernel.steady : Kernel where
  ktime n := n * 100000
  ktime_mono := Kernel.monotone_steady
  trylock _ := true
  skbGsoSegment _ := none

namespace Rl

/-- `struct iso_rl_queue`.  The total `bytes_xmit`, like `tx_bytes` of the control block, is not cut
to 64 bits; the counters of the source are these modulo `2^64` (`runFrom_counters`). -/
structure Queue where
  list : List Skb := []
  firstPktSize : ℕ := 0
  bytesEnqueued : ℕ := 0
  bytesXmit : ℕ := 0
  tokens : ℕ := 0

end Rl

/-- `struct iso_rl`. -/
structure Rl (C : Type) where
  ip : UInt32
  rate : ℕ
  totalTokens : ℕ
  lastUpdateTime : ℕ
  lastRateUpdateTime : ℕ
  queue : C → Rl.Queue

/-- A limiter of the context. -/
inductive RlId (K D : Type) where
  | txc (k : K)
  | dest (k : K) (d : D)
deriving DecidableEq

namespace Rl

/-- Why a packet is freed: it has been replaced by its segments, or there is no room for it. -/
inductive FreeReason where
  | segmented
  | noRoom
deriving DecidableEq

/-- The history: what happens to packets, in order. -/
inductive Event (K D C : Type) where
  /-- `iso_rl_enqueue` takes the packet. -/
  | accept (r : RlId K D) (c : C) (skb : Skb)
  /-- `iso_rl_enqueue` calls `skb_gso_segment`. -/
  | gsoSegment (r : RlId K D) (c : C) (skb : Skb) (segs : Option (List Skb))
  /-- `iso_rl_enqueue` calls `skb_trim`. -/
  | trim (r : RlId K D) (c : C) (skb : Skb)
  /-- `kfree_skb`. -/
  | kfree (why : FreeReason) (skb : Skb)
  /-- `skb_peek` finds the packet at the head of the queue. -/
  | head (r : RlId K D) (c : C) (skb : Skb)
  /-- The queue is charged `size`, its tokens and bytes being as given. -/
  | charge (r : RlId K D) (c : C) (size tokens bytes : ℕ)
  /-- `skb_xmit`, on CPU `c`. -/
  | xmit (c : C) (skb : Skb)

/-- `struct iso_rl_cb`. -/
structure Cb (K D C : Type) where
  activeList : List (RlId K D × C) := []
  /-- `hrtimer_active(&cb->timer)`. -/
  timer : Bool := false
  /-- The tasklet `cb->xmit_timeout` is scheduled. -/
  xmitTimeout : Bool := false
  txBytes : ℕ := 0

end Rl

/-- The limiters and the control blocks of a tx context. -/
structure TxState (K D C : Type) where
  rl : RlId K D → Rl C
  cb : C → Rl.Cb K D C
  reads : ℕ
  tries : ℕ
  trace : List (Rl.Event K D C)

namespace TxState

variable {K D C : Type}

/-- `per_cpu_ptr(rl->queue, cpu)`. -/
def q (s : TxState K D C) (r : RlId K D) (c : C) : Rl.Queue := (s.rl r).queue c

/-- A limiter without its queues. -/
def pool (s : TxState K D C) (r : RlId K D) : Rl C := { s.rl r with queue := fun _ => {} }

def log (s : TxState K D C) (e : Rl.Event K D C) : TxState K D C :=
  { s with trace := s.trace ++ [e] }

/-- One more reading of the clock has been made. -/
def read (s : TxState K D C) : TxState K D C := { s with reads := s.reads + 1 }

/-- One more attempt to take a lock has been made. -/
def tryLock (s : TxState K D C) : TxState K D C := { s with tries := s.tries + 1 }

def modifyCb [DecidableEq C] (s : TxState K D C) (c : C) (f : Rl.Cb K D C → Rl.Cb K D C) :
    TxState K D C :=
  { s with cb := Function.update s.cb c (f (s.cb c)) }

variable [DecidableEq K] [DecidableEq D]

def modifyRl (s : TxState K D C) (r : RlId K D) (f : Rl C → Rl C) : TxState K D C :=
  { s with rl := Function.update s.rl r (f (s.rl r)) }

variable [DecidableEq C]

def modifyQ (s : TxState K D C) (r : RlId K D) (c : C) (f : Rl.Queue → Rl.Queue) :
    TxState K D C :=
  s.modifyRl r fun l => { l with queue := Function.update l.queue c (f (l.queue c)) }

/-- `!list_empty(&q->active_list)`: the queue is linked on some control block's list. -/
def Linked (s : TxState K D C) (x : RlId K D × C) : Prop := ∃ c, x ∈ (s.cb c).activeList

instance [Fintype C] (s : TxState K D C) (x : RlId K D × C) : Decidable (s.Linked x) :=
  inferInstanceAs (Decidable (∃ c, x ∈ (s.cb c).activeList))

end TxState

/-! ### Reading an updated state -/

namespace TxState

section

variable {K D C : Type} (s : TxState K D C) (r : RlId K D) (c : C) (e : Rl.Event K D C)

@[simp] theorem q_log : (s.log e).q r c = s.q r c := rfl

@[simp] theorem q_read : s.read.q r c = s.q r c := rfl

@[simp] theorem q_tryLock : s.tryLock.q r c = s.q r c := rfl

@[simp] theorem pool_log : (s.log e).pool r = s.pool r := rfl

@[simp] theorem pool_read : s.read.pool r = s.pool r := rfl

@[simp] theorem pool_tryLock : s.tryLock.pool r = s.pool r := rfl

variable [DecidableEq C] (c' : C) (h : Rl.Cb K D C → Rl.Cb K D C)

@[simp] theorem q_modifyCb : (s.modifyCb c' h).q r c = s.q r c := rfl

@[simp] theorem pool_modifyCb : (s.modifyCb c' h).pool r = s.pool r := rfl

@[simp] theorem cb_modifyCb_self : (s.modifyCb c h).cb c = h (s.cb c) :=
  Function.update_self ..

theorem cb_modifyCb_of_ne {c c' : C} (hc : c' ≠ c) : (s.modifyCb c h).cb c' = s.cb c' :=
  Function.update_of_ne hc ..

end

section

variable {K D C : Type} [DecidableEq K] [DecidableEq D] (s : TxState K D C) (r : RlId K D) (c : C)
  (f : Rl C → Rl C)

@[simp] theorem rl_modifyRl_self : (s.modifyRl r f).rl r = f (s.rl r) :=
  Function.update_self ..

theorem rl_modifyRl_of_ne {r r' : RlId K D} (hr : r' ≠ r) : (s.modifyRl r f).rl r' = s.rl r' :=
  Function.update_of_ne hr ..

@[simp] theorem q_modifyRl_self : (s.modifyRl r f).q r c = (f (s.rl r)).queue c := by
  rw [q, rl_modifyRl_self]

theorem q_modifyRl_of_ne {r r' : RlId K D} (hr : r' ≠ r) : (s.modifyRl r f).q r' c = s.q r' c := by
  rw [q, rl_modifyRl_of_ne _ _ hr, q]

@[simp] theorem pool_modifyRl_self :
    (s.modifyRl r f).pool r = { f (s.rl r) with queue := fun _ => {} } := by
  rw [pool, rl_modifyRl_self]

theorem pool_modifyRl_of_ne {r r' : RlId K D} (hr : r' ≠ r) :
    (s.modifyRl r f).pool r' = s.pool r' := by
  rw [pool, rl_modifyRl_of_ne _ _ hr, pool]

variable [DecidableEq C] (g : Rl.Queue → Rl.Queue)

@[simp] theorem q_modifyQ_self : (s.modifyQ r c g).q r c = g (s.q r c) := by
  rw [modifyQ, q_modifyRl_self, q]
  exact Function.update_self ..

theorem q_modifyQ_of_ne {r r' : RlId K D} {c c' : C} (hne : (r', c') ≠ (r, c)) :
    (s.modifyQ r c g).q r' c' = s.q r' c' := by
  by_cases hr : r' = r
  · subst hr
    have hc : c' ≠ c := fun hc => hne (by rw [hc])
    rw [modifyQ, q_modifyRl_self, q]
    exact Function.update_of_ne hc ..
  · rw [modifyQ, q_modifyRl_of_ne _ _ _ hr]

@[simp] theorem pool_modifyQ (r' : RlId K D) : (s.modifyQ r c g).pool r' = s.pool r' := by
  by_cases hr : r' = r
  · subst hr
    rw [modifyQ, pool_modifyRl_self, pool]
  · rw [modifyQ, pool_modifyRl_of_ne _ _ hr]

end

end TxState

namespace Rl

/-- `iso_rl_init`, at time `t`. -/
def init (C : Type) (p : Params) (t : ℕ) : Rl C where
  ip := 0
  rate := p.isoRfairInitial
  totalTokens := 15000
  lastUpdateTime := t
  lastRateUpdateTime := t
  queue := fun _ => {}

end Rl

/-- A context whose limiters were set up at the times `t`, and nothing has happened yet. -/
def TxState.init {K D C : Type} (p : Params) (t : RlId K D → ℕ) : TxState K D C where
  rl := fun r => Rl.init C p (t r)
  cb := fun _ => {}
  reads := 0
  tries := 0
  trace := []

end EyeQ
