import EyeQ.Qdisc.Basic

/-!
# Deleting a class

`Teardown` is a context from which classes are deleted while packets are processed.  `delete_txc`
takes the class out of the hash table, after which no lookup finds it, waits for the readers, and
frees the limiters of its destinations (`iso_rl_free`) and its own.  Freeing a limiter gives its
memory back as it is: the packets in its queues are not freed, and a queue that is linked on the
active list of a control block stays linked, now in memory that belongs to nobody.  The model keeps
that memory, so that the tasklet can be seen to find it.
-/

namespace EyeQ

/-- The class of a limiter. -/
def RlId.klass {K D : Type} : RlId K D → K
  | .txc t => t
  | .dest t _ => t

/-- A tx context, and the classes that have been deleted from it. -/
structure Teardown (K D C : Type) where
  tx : TxState K D C
  deleted : List K

namespace Teardown

open Rl

variable {K D C : Type} [DecidableEq K] [DecidableEq D] [DecidableEq C] [Fintype C]

inductive Op (K D C : Type) where
  /-- The context is at work. -/
  | work (op : Qdisc.Op K D C)
  /-- `delete_txc`. -/
  | deleteTxc (t : K)

/-- What an operation comes to when classes have been deleted.  A lookup does not find a deleted
class, so its packets pass and its rates are not set; the timer and the tasklet look nothing up. -/
def live (deleted : List K) : Qdisc.Op K D C → Option (Qdisc.Op K D C)
  | .enqueue route c skb => some (.enqueue (route.filter fun x => x.1 ∉ deleted) c skb)
  | .dequeue r c => if r.klass ∈ deleted then none else some (.dequeue r c)
  | .feedback t d rate => if t ∈ deleted then none else some (.feedback t d rate)
  | .classRate t rate => if t ∈ deleted then none else some (.classRate t rate)
  | .timeout c => some (.timeout c)
  | .tasklet c => some (.tasklet c)

/-- `iso_sys_delete_txc`, which fails when the class is not found.  This one step stands for the
frees after `synchronize_rcu`.  While the class is out of the table and not freed, CPUs that have
found it before go on with it, and for others a lookup fails: these are operations before the step.
The rates that are set for the other classes are operations of their own. -/
def isoSysDeleteTxc (t : K) (s : Teardown K D C) : Teardown K D C :=
  if t ∈ s.deleted then s else { s with deleted := t :: s.deleted }

/-- What an operation does. -/
def step (p : Params) (k : Kernel) (s : Teardown K D C) : Op K D C → Teardown K D C
  | .work op =>
    match live s.deleted op with
    | some op => { s with tx := Qdisc.step p k s.tx op }
    | none => s
  | .deleteTxc t => isoSysDeleteTxc t s

/-- A context set up at the times `t`, with every class in place. -/
def init (p : Params) (t : RlId K D → ℕ) : Teardown K D C := ⟨TxState.init p t, []⟩

end Teardown

end EyeQ
