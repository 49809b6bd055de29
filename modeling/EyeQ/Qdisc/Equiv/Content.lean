import EyeQ.Qdisc.Equiv.Order
import EyeQ.Rl.Equiv.Append

/-!
# What the packets in the queues have in common

The limiters write the type of service of a packet and nothing else of it, and they put no packet in
a queue that they were not given, unless it is a segment of one.  So a property of packets that does
not depend on the type of service, and that segments have from the packet (`Inherited`), is one of
all packets in the queues and of all that are transmitted, once it is one of the packets that the
kernel has given to `iso_enqueue` (`runFrom_carries`).
-/

namespace EyeQ

open Machine

namespace Rl

variable {K D C : Type} [DecidableEq K] [DecidableEq D] [DecidableEq C]

/-- A property that packets keep on their way. -/
structure Inherited (k : Kernel) (Q : Skb → Prop) : Prop where
  tos : ∀ skb tos, Q skb → Q { skb with tos := tos }
  segment : ∀ pkt segs, k.skbGsoSegment pkt = some segs → Q pkt → ∀ skb ∈ segs, Q skb

/-- The packets in the queues and those transmitted have the property. -/
structure Carries (Q : Skb → Prop) (s : TxState K D C) : Prop where
  queued : ∀ r c, ∀ skb ∈ (s.q r c).list, Q skb
  sent : ∀ c skb, Event.xmit c skb ∈ s.trace → Q skb

variable {p : Params} {k : Kernel} {Q : Skb → Prop} {s s' : TxState K D C}

omit [DecidableEq C] in
theorem Inherited.added (hQ : Inherited k Q) {pkt : Skb} (hpkt : Q pkt) (r : RlId K D) (c : C) :
    ∀ skb ∈ added p k r pkt c s, Q skb := by
  intro skb hmem
  unfold Rl.added at hmem
  split_ifs at hmem
  · have hseg := (fitting_isPrefix p _ _).subset hmem
    rcases hsegs : k.skbGsoSegment pkt with _ | segs
    · rw [hsegs] at hseg
      exact absurd hseg List.not_mem_nil
    · rw [hsegs] at hseg
      exact hQ.segment pkt segs hsegs hpkt skb hseg
  · obtain rfl := List.mem_singleton.1 hmem
    unfold marked
    cases r with
    | txc t =>
      dsimp only
      split_ifs
      · exact hQ.tos _ _ hpkt
      · exact hpkt
    | dest t d => exact hpkt
  · exact absurd hmem List.not_mem_nil

omit [DecidableEq K] [DecidableEq D] [DecidableEq C] in
/-- The queues hold the same packets, and none has been transmitted. -/
theorem Carries.congr (h : Carries Q s) (hlist : ∀ r c, (s'.q r c).list ⊆ (s.q r c).list)
    (hsent : ∀ c skb, Event.xmit c skb ∈ s'.trace → Event.xmit c skb ∈ s.trace) : Carries Q s' :=
  ⟨fun r c skb hmem => h.queued r c skb (hlist r c hmem), fun c skb hmem => h.sent c skb
    (hsent c skb hmem)⟩

omit [DecidableEq K] [DecidableEq D] [DecidableEq C] in
theorem Carries.still (h : Carries Q s) (hstill : Still s s') : Carries Q s' := by
  refine h.congr (fun r c => ?_) fun c skb hmem => ?_
  · have hlist : (s'.q r c).list = (s.q r c).list := congrArg Load.list (hstill.load r c)
    rw [hlist]
    exact List.Subset.refl _
  · obtain ⟨evs, hevs, htrace⟩ := hstill.trace
    rw [htrace] at hmem
    rcases List.mem_append.1 hmem with hmem | hmem
    · exact hmem
    · obtain ⟨_, _, _, heq⟩ := hevs _ hmem
      cases heq

theorem Carries.skbDequeue (h : Carries Q s) (r : RlId K D) (c : C) :
    Carries Q (skbDequeue r c s) := by
  refine h.congr (fun r' c' => ?_) fun _ _ hmem => hmem
  by_cases hx : (r', c') = (r, c)
  · obtain ⟨rfl, rfl⟩ := Prod.mk.inj hx
    rw [q_skbDequeue_self]
    exact List.tail_subset _
  · rw [q_skbDequeue_of_ne _ hx]
    exact List.Subset.refl _

theorem Carries.charge (h : Carries Q s) (r : RlId K D) (c : C) (n : ℕ) :
    Carries Q (charge r c n s) := by
  refine h.congr (fun r' c' => ?_) fun c' skb hmem => ?_
  · by_cases hx : (r', c') = (r, c)
    · obtain ⟨rfl, rfl⟩ := Prod.mk.inj hx
      rw [q_charge_self]
      exact List.Subset.refl _
    · rw [q_charge_of_ne _ _ hx]
      exact List.Subset.refl _
  · have hmem' : Event.xmit c' skb ∈ s.trace ++ [_] := hmem
    rcases List.mem_append.1 hmem' with hmem' | hmem'
    · exact hmem'
    · cases List.mem_singleton.1 hmem'

omit [DecidableEq K] [DecidableEq D] [DecidableEq C] in
/-- A packet is transmitted. -/
theorem Carries.xmit (h : Carries Q s) (c : C) {skb : Skb} (hskb : Q skb) :
    Carries Q (s.log (.xmit c skb)) := by
  refine ⟨h.queued, fun c' skb' hmem => ?_⟩
  rcases List.mem_append.1 hmem with hmem | hmem
  · exact h.sent c' skb' hmem
  · cases List.mem_singleton.1 hmem
    exact hskb

theorem Carries.isoRlEnqueue (h : Carries Q s) (hQ : Inherited k Q) (r : RlId K D) {pkt : Skb}
    (hpkt : Q pkt) (c : C) (hbytes : (s.q r c).bytesEnqueued + pkt.size <
      p.isoMaxQueueLenBytes + 2 ^ 31) :
    Carries Q (isoRlEnqueue p k r pkt c s).2 := by
  have htouch := isoRlEnqueue_touches p k r pkt c s
  refine ⟨fun r' c' skb hmem => ?_, fun c' skb hmem => ?_⟩
  · by_cases hx : (r', c') = (r, c)
    · obtain ⟨rfl, rfl⟩ := Prod.mk.inj hx
      rw [q_isoRlEnqueue _ _ _ _ _ _ hbytes] at hmem
      rcases List.mem_append.1 hmem with hmem | hmem
      · exact h.queued _ _ skb hmem
      · exact hQ.added hpkt _ _ skb hmem
    · rw [htouch.q hx] at hmem
      exact h.queued r' c' skb hmem
  · obtain ⟨added, evs, hout, happ⟩ := isoRlEnqueue_spec p k r pkt c s hbytes
    rw [happ.trace, trace_isoRlClock] at hmem
    rcases List.mem_append.1 hmem with hmem | hmem
    · exact h.sent c' skb hmem
    · exact absurd hmem hout.not_xmit

theorem Carries.forward (h : Carries Q s) (hQ : Inherited k Q) (hocc : Occupied p s)
    {r : RlId K D} {c : C} {pkt : Skb} {rest : List Skb} (hlist : (s.q r c).list = pkt :: rest)
    (hforward : Rl.forward p k r c pkt s = some s') : Carries Q s' := by
  have hpkt : Q pkt := h.queued r c pkt (hlist ▸ List.mem_cons_self)
  unfold Rl.forward at hforward
  cases r with
  | txc t =>
    obtain rfl := Option.some.inj hforward
    exact (((h.skbDequeue (.txc t) c).xmit c hpkt).charge (.txc t) c pkt.size).congr
      (fun _ _ => List.Subset.refl _) fun _ _ hmem => hmem
  | dest t d =>
    dsimp only at hforward
    split_ifs at hforward
    obtain rfl := Option.some.inj hforward
    have hparent : (Rl.skbDequeue (.dest t d) c s).q (.txc t) c = s.q (.txc t) c :=
      q_skbDequeue_of_ne s (by simp)
    refine ((h.skbDequeue (.dest t d) c).isoRlEnqueue hQ (.txc t) hpkt c ?_).charge
      (.dest t d) c pkt.size
    rw [hparent]
    exact add_size_lt (hocc (.txc t) c).2 pkt

/-- A path on which no packet comes in. -/
theorem Carries.path (h : Carries Q s) (hQ : Inherited k Q) (hocc : Occupied p s)
    (hpath : IsPath (Inner p k) s s') :
    Occupied p s' ∧ Carries Q s' := by
  refine path_invariant (P := fun x => Occupied p x ∧ Carries Q x) ?_ hpath ⟨hocc, h⟩
  rintro x y hinner ⟨hocc, h⟩
  refine ⟨(hinner.move hocc).occupied hocc, ?_⟩
  rcases hinner.still_or_forward with hstill | ⟨r, c, pkt, rest, hlist, -, hforward⟩
  · exact h.still hstill
  · exact h.forward hQ hocc hlist hforward

end Rl

namespace Qdisc

open Rl

variable {K D C : Type} [DecidableEq K] [DecidableEq D] [DecidableEq C] [Fintype C]
  {p : Params} {k : Kernel} {Q : Skb → Prop} {s : TxState K D C}

theorem isoTx_carries (h : Carries Q s) (hQ : Inherited k Q) (hocc : Occupied p s)
    (route : Option (K × D)) {skb : Skb} (hskb : Q skb) (c : C) :
    Occupied p (isoTx p k route skb c s).2 ∧ Carries Q (isoTx p k route skb c s).2 := by
  cases route with
  | none => exact ⟨hocc, h⟩
  | some x =>
    have hecn : Q skb.isoEnableEcn := hQ.tos _ _ hskb
    have henqueue : Carries Q (isoRlEnqueue p k (.dest x.1 x.2) skb.isoEnableEcn c s).2 :=
      h.isoRlEnqueue hQ _ hecn c (add_size_lt (hocc _ _).2 _)
    have hocc' : Occupied p (isoRlEnqueue p k (.dest x.1 x.2) skb.isoEnableEcn c s).2 :=
      ((Small.enqueue (p := p) (k := k) s x.1 x.2 c skb.isoEnableEcn).move hocc).occupied hocc
    exact henqueue.path hQ hocc' (isoRlDequeue_path (.dest x.1 x.2) c _)

theorem step_carries (h : Carries Q s) (hQ : Inherited k Q) (hocc : Occupied p s) {op : Op K D C}
    (hop : ∀ e, op.sent = some e → Q e.2.2) : Occupied p (step p k s op) ∧
    Carries Q (step p k s op) := by
  rcases hsent : op.sent with _ | e
  · obtain ⟨op', hop', hstep⟩ := exists_internal p k hsent
    rw [hstep]
    rcases Rl.step_inner_path (p := p) (k := k) s hop' with hpath | hwrite
    · exact h.path hQ hocc hpath
    · exact ⟨(hwrite.still.move (k := k)).occupied hocc, h.still hwrite.still⟩
  · cases op with
    | enqueue route c skb =>
      have hskb : Q skb := hop (route, c, skb) rfl
      rw [step_enqueue]
      split_ifs
      · obtain ⟨hocc', h'⟩ := isoTx_carries h hQ hocc route hskb c
        generalize isoTx p k route skb c s = out at hocc' h'
        obtain ⟨verdict, s'⟩ := out
        refine ⟨dispose_occupied c skb hocc' verdict, ?_⟩
        cases verdict with
        | success | error => exact h'
        | pass => exact h'.xmit c hskb
        | drop =>
          refine h'.congr (fun _ _ => List.Subset.refl _) fun c' skb' hmem => ?_
          refine (List.mem_append.1 hmem).resolve_right fun hmem => ?_
          cases List.mem_singleton.1 hmem
      · exact ⟨hocc, h.xmit c hskb⟩
    | dequeue | feedback | classRate | timeout | tasklet => cases hsent

/-- What all packets that are given to the limiters have in common, all that are queued or
transmitted have. -/
theorem runFrom_carries (hQ : Inherited k Q) (t : RlId K D → ℕ) {ops : List (Op K D C)}
    (hops : ∀ e ∈ ops.filterMap Op.sent, Q e.2.2) :
    Occupied p (runFrom p k t ops) ∧ Carries Q (runFrom p k t ops) := by
  have hempty : Carries Q (TxState.init p t : TxState K D C) :=
    ⟨fun _ _ _ hmem => absurd hmem List.not_mem_nil, fun _ _ hmem => absurd hmem List.not_mem_nil⟩
  refine run_invariant (P := fun s => Occupied p s ∧ Carries Q s) _
    (fun s op (hop : ∀ e, op.sent = some e → Q e.2.2) hs => step_carries hs.2 hQ hs.1 hop)
    ⟨fun _ _ => ⟨rfl, Nat.zero_le _⟩, hempty⟩ fun op hop e he => ?_
  exact hops e (List.mem_filterMap.2 ⟨op, hop, he⟩)

end Qdisc

end EyeQ
