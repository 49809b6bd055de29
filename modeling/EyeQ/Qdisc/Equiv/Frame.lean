import EyeQ.Qdisc.Basic
import EyeQ.Rl.Equiv.Frame

/-!
# Limiters that a run does not touch: the queueing discipline

What `Rl.Equiv.Frame` says of the functions of `rl.c`, for the operations of a context.  An
operation that stays in a region does not look at the limiters outside of it, and of no limiter does
it look at the address.  So it makes no difference whether those change before a run or after it
(`run_overlay`), and no operation writes an address (`step_ip`).
-/

namespace EyeQ

open Machine Rl

namespace Qdisc

variable {K D C : Type}

/-- The operation stays in the region. -/
def Op.Within (A : Set (RlId K D)) : Op K D C → Prop
  | .enqueue route _ _ => ∀ x ∈ route, .dest x.1 x.2 ∈ A
  | .dequeue r _ => r ∈ A
  | .feedback t d _ => .dest t d ∈ A
  | .classRate t _ => .txc t ∈ A
  | .timeout _ => True
  | .tasklet _ => True

theorem Op.Within.mono {A B : Set (RlId K D)} {op : Op K D C} (h : op.Within A) (hAB : A ⊆ B) :
    op.Within B := by
  cases op with
  | enqueue route c skb => exact fun x hx => hAB (h x hx)
  | dequeue r c => exact hAB h
  | feedback t d rate => exact hAB h
  | classRate t rate => exact hAB h
  | timeout c => trivial
  | tasklet c => trivial

/-- A packet that the kernel gives to `iso_enqueue`, with the limiter that it is for and its CPU. -/
abbrev Sending (K D C : Type) : Type := Option (K × D) × C × Skb

def Op.sent : Op K D C → Option (Sending K D C)
  | .enqueue route c skb => some (route, c, skb)
  | _ => none

variable [DecidableEq K] [DecidableEq D] [DecidableEq C] [Fintype C]

variable {A : Set (RlId K D)} {m : RlId K D → Rl C → Rl C} {p : Params} {k : Kernel}
  {s : TxState K D C}

theorem isoTx_overlay (hA : Closed A) (hm : ∀ r ∈ A, Transparent m r) {route : Option (K × D)}
    (hroute : ∀ x ∈ route, .dest x.1 x.2 ∈ A) (skb : Skb) (c : C) (h : Rl.Inside A s) :
    Rl.Inside A (isoTx p k route skb c s).2 ∧
      isoTx p k route skb c (s.overlay m) = Prod.map id (TxState.overlay m)
        (isoTx p k route skb c s) := by
  cases route with
  | none => exact ⟨h, rfl⟩
  | some x =>
    have hx := hroute x rfl
    have henqueue := isoRlEnqueue_touches p k (.dest x.1 x.2) skb.isoEnableEcn c s
    refine ⟨.isoRlDequeue hA hx (h.of_same (.of_cb henqueue.cb)), ?_⟩
    unfold isoTx
    dsimp only
    rw [isoRlEnqueue_overlay (hm _ hx), Prod.map_fst, Prod.map_snd,
      isoRlDequeue_overlay (hA.clear hm hx)]
    rfl

/-- It makes no difference whether the limiters outside of the region change before the operation or
after it. -/
theorem step_overlay (hA : Closed A) (hm : ∀ r ∈ A, Transparent m r) {op : Op K D C}
    (hop : op.Within A) (h : Rl.Inside A s) :
    Rl.Inside A (step p k s op) ∧ step p k (s.overlay m) op = (step p k s op).overlay m := by
  cases op with
  | enqueue route c skb =>
    obtain ⟨hin, heq⟩ := isoTx_overlay (p := p) (k := k) hA hm hop skb c h
    unfold step isoEnqueue
    dsimp only
    by_cases hon : p.isoGlobalEnabled = true
    · rw [if_pos hon, if_pos hon, heq, Prod.map_fst, Prod.map_snd, id]
      generalize isoTx p k route skb c s = out at hin
      obtain ⟨verdict, s'⟩ := out
      cases verdict
      all_goals exact ⟨hin, rfl⟩
    · rw [if_neg hon, if_neg hon]
      exact ⟨h, rfl⟩
  | dequeue r c =>
    refine ⟨.isoRlDequeue hA hop h, ?_⟩
    show (isoRlDequeue p k r c (s.overlay m)).2 = _
    rw [isoRlDequeue_overlay (hA.clear hm hop)]
    rfl
  | feedback t d rate =>
    refine ⟨h, congrArg TxState.read ((hm _ hop).modifyRl (fun l ip => ?_) (fun l => ?_) s)⟩
    all_goals rfl
  | classRate t rate =>
    refine ⟨h, ?_⟩
    unfold step Rl.step
    refine (hm _ hop).modifyRl (fun l ip => ?_) (fun l => ?_) s
    all_goals rfl
  | timeout c =>
    unfold step Rl.step isoRlTimeout
    dsimp only
    rw [TxState.cb_overlay, TxState.modifyCb_overlay]
    by_cases htimer : (s.cb c).timer = true
    · rw [if_pos htimer, if_pos htimer]
      refine ⟨h.modifyCb _ fun x hx => ?_, rfl⟩
      exact h c x hx
    · rw [if_neg htimer, if_neg htimer]
      exact ⟨h, rfl⟩
  | tasklet c => exact isoRlXmitTasklet_overlay hA hm c h

theorem run_overlay (hA : Closed A) (hm : ∀ r ∈ A, Transparent m r) {ops : List (Op K D C)}
    (hops : ∀ op ∈ ops, op.Within A) (h : Rl.Inside A s) :
    Rl.Inside A (run (step p k) s ops) ∧
    run (step p k) (s.overlay m) ops = (run (step p k) s ops).overlay m := by
  induction ops generalizing s with
  | nil => exact ⟨h, rfl⟩
  | cons op ops ih =>
    obtain ⟨hin, heq⟩ := step_overlay (p := p) (k := k) hA hm (hops op List.mem_cons_self) h
    rw [run_cons, run_cons, heq]
    exact ih (fun op hop => hops op (List.mem_cons_of_mem _ hop)) hin

theorem step_classRate {rate : ℕ} (hrate : rate < 2 ^ 32) (s : TxState K D C) (t : K) :
    step p k s (.classRate t rate) = s.modifyRl (.txc t) fun l => { l with rate := rate } := by
  show (s.modifyRl (.txc t) fun l => { l with rate := u32 rate }) = _
  rw [u32_of_lt hrate]

theorem step_feedback {rate : ℕ} (hrate : rate < 2 ^ 32) (s : TxState K D C) (t : K) (d : D) :
    step p k s (.feedback t d rate) = (s.modifyRl (.dest t d) fun l =>
      { l with rate := rate, lastRateUpdateTime := k.ktime s.reads }).read := by
  show (s.modifyRl (.dest t d) fun l =>
    { l with rate := u32 rate, lastRateUpdateTime := k.ktime s.reads }).read = _
  rw [u32_of_lt hrate]

/-- No operation writes the address of a limiter. -/
theorem step_ip (p : Params) (k : Kernel) (s : TxState K D C) (op : Op K D C) (r : RlId K D) :
    ((step p k s op).rl r).ip = (s.rl r).ip := by
  -- writing back the addresses that are there changes nothing before the operation
  let m : RlId K D → Rl C → Rl C := fun r l => { l with ip := (s.rl r).ip }
  have hm : ∀ r ∈ (Set.univ : Set (RlId K D)), Transparent m r := by
    intro r _
    exact ⟨fun _ => (s.rl r).ip, fun _ => rfl⟩
  have hop : op.Within Set.univ := by cases op <;> simp [Op.Within]
  obtain ⟨-, hover⟩ := step_overlay (p := p) (k := k) (fun _ _ _ => Set.mem_univ _) hm hop
    (fun _ _ _ => Set.mem_univ _ : Rl.Inside Set.univ s)
  have hself : s.overlay m = s := rfl
  rw [hself] at hover
  rw [hover]
  rfl

end Qdisc

end EyeQ
