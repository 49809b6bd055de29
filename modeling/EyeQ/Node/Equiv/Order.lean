import EyeQ.Node.Equiv.Refine
import EyeQ.Qdisc.Equiv.Order

/-!
# A device does not reorder a flow

The packets that one CPU sends from one address to another are a flow.  While the class or the state
of the destination is missing they are handed to the device at once, and afterwards they wait in the
queues of two limiters.  In the meantime packets of other flows come in, feedback arrives, classes
and limiters are created, rates change, timers expire and tasklets run.

`runFrom_flow_inOrder`: for every run of a device in which no packet is segmented, the packets of a
flow leave in the order in which the kernel has given them to `iso_enqueue`, each at most once.  The
argument has two halves.  The way of a flow, once there is one, stays (`Steady`); and on a way that
stays, nothing is overtaken (`Qdisc.runFrom_flow_sublist`), which holds on the device because its
limiters are those of a run of the abstract machine.
-/

namespace EyeQ.Node

open Rl

variable {C : Type} [DecidableEq C] [Fintype C] {plat : Platform} {p : Params}
  {kern : Kernel} {online : List C}

/-- The packets of the flow of `skb` that the kernel gives to `iso_enqueue` on CPU `c`, in order. -/
def flow (c : C) (skb : Skb) (ops : List (Op C)) : List (ℕ × ℕ) :=
  ((ops.filterMap Op.given).filter fun g => g.1 = c ∧ SameFlow skb g.2).map fun g => g.2.tag

/-- The sending belongs to the flow of `skb` on CPU `c`. -/
def OfFlow (c : C) (skb : Skb) (e : Qdisc.Sending ℕ ℕ C) : Prop := e.2.1 = c ∧ SameFlow skb e.2.2

instance (c : C) (skb : Skb) : DecidablePred (OfFlow c skb) :=
  fun _ => inferInstanceAs (Decidable (_ ∧ _))

theorem SameFlow.of_common {skb skb₁ skb₂ : Skb} (h₁ : SameFlow skb skb₁) (h₂ : SameFlow skb skb₂) :
    SameFlow skb₁ skb₂ :=
  ⟨h₂.1.trans h₁.1.symm, h₂.2.1.trans h₁.2.1.symm, h₂.2.2.trans h₁.2.2.symm⟩

variable {sent : List (Qdisc.Sending ℕ ℕ C)}

omit [Fintype C] in
theorem flowTags_eq_flow {ops : List (Op C)} (hsent : sent.map Prod.snd = ops.filterMap Op.given)
    (c : C) (skb : Skb) : Qdisc.flowTags (OfFlow c skb) sent = flow c skb ops := by
  rw [flow, ← hsent, List.filter_map, List.map_map]
  rfl

omit [DecidableEq C] [Fintype C] in
/-- The way of a flow stays. -/
theorem Steady.steady {ctx : TxContext C} (h : Steady plat p ctx sent)
    (hfresh : (sent.map fun e => e.2.2.ptr).Nodup) (c : C) (skb : Skb) :
    Qdisc.Steady p (OfFlow c skb) c sent where
  cpu := fun _ _ he => he.1
  fresh := by
    refine List.Nodup.of_map Prod.fst ?_
    rw [List.map_map]
    exact hfresh
  pairwise := h.pairwise.imp fun hpair ha hb => hpair (ha.2.of_common hb.2)
  off := h.off

/-- A device transmits the packets of a flow in the order in which it was given them, if it segments
none. -/
theorem runFrom_flow_inOrder {now : ℕ} (hp : p.isoMaxTxRate < 2 ^ 32)
    {ops : List (Op C)} {n : Node C} (hrun : runFrom plat p kern online now ops = .ok n)
    (hgso : Unsplit n.trace)
    (hfresh : ((ops.filterMap Op.given).map fun g => g.2.ptr).Nodup) (c : C) (skb : Skb) :
    ((transmitted c n.trace).filter (· ∈ flow c skb ops)).Sublist (flow c skb ops) := by
  obtain ⟨sent, hsent, h⟩ := runFrom_follows hp hrun
  rw [← hsent, List.map_map] at hfresh
  have hsteady := h.steady.steady hfresh c skb
  obtain ⟨t, ops', -, rfl, heq⟩ := h.refines
  have htrace : n.trace = (Qdisc.runFrom p kern t ops').trace := congrArg TxState.trace heq
  rw [htrace] at hgso ⊢
  rw [← flowTags_eq_flow hsent]
  exact Qdisc.runFrom_flow_sublist hgso hsteady

theorem runFrom_flow_inOrder_conversation :
    flow () (dataWith 0) conversation = [(1, 1000), (2, 1000), (3, 1000)] ∧
    Unsplit afterConversation.trace ∧
      ((transmitted () afterConversation.trace).filter
        (· ∈ flow () (dataWith 0) conversation)).Sublist (flow () (dataWith 0) conversation) :=
  have hgso : Unsplit afterConversation.trace := by decide +kernel
  ⟨by decide +kernel, hgso, runFrom_flow_inOrder (by decide)
    (Machine.eq_ok_endOr _ (by decide +kernel)) hgso (by decide +kernel) () (dataWith 0)⟩

end EyeQ.Node
