import EyeQ.Fabric.Basic
import EyeQ.Host.Equiv.Answer
import EyeQ.Node.Equiv.Pool
import EyeQ.Qdisc.Equiv.Content

/-!
# What a server keeps

Whatever happens to a server is an operation of its device (`Moves`), and the receive context stays
in order.  A server to whose kernel no feedback packets are given transmits none
(`Sound.transmitted_plain`).
-/

namespace EyeQ

open Machine Rl

/-- The packet carries no rate. -/
def Skb.Plain (p : Params) (skb : Skb) : Prop := skbHasFeedback p skb = 0

instance (p : Params) (skb : Skb) : Decidable (skb.Plain p) := inferInstanceAs (Decidable (_ = _))

/-- A configuration in which a limiter can be governed at any rate that a feedback packet can
carry. -/
structure Params.Governable (p : Params) : Prop extends p.Sane where
  maxTxRate_lt : p.isoMaxTxRate < 2 ^ 32
  rfairInitial_le : p.isoRfairInitial ≤ 2 ^ 16
  maxBurst_lt : 2 ^ 16 * p.isoMaxBurstTimeUs < 2 ^ 32
  minBurst_ge : 15000 ≤ p.isoMinBurstBytes

/-- The defaults are such a configuration. -/
theorem Params.governable_default : ({} : Params).Governable := by
  refine ⟨Params.sane_default, ?_, ?_, ?_, ?_⟩
  all_goals decide

namespace Node

variable {C : Type} [DecidableEq C] [Fintype C] {plat : Platform} {p : Params}
  {kern : Kernel} {online : List C} {sent : List (Qdisc.Sending ℕ ℕ C)} {n : Node C}

/-- What the packets that a device is given have in common, those have that it transmits. -/
theorem Follows.carries (h : Follows plat p kern sent n) {Q : Skb → Prop} (hQ : Inherited kern Q)
    (hsent : ∀ e ∈ sent, Q e.2.2) : Carries Q n.view := by
  obtain ⟨t, ops, -, rfl, heq⟩ := h.refines
  have hcarries := (Qdisc.runFrom_carries (p := p) hQ t hsent).2
  rw [← heq] at hcarries
  exact ⟨hcarries.queued, hcarries.sent⟩

omit [DecidableEq C] [Fintype C] in
theorem Op.carried_le (p : Params) (op : Op C) : op.carried p ≤ 2 ^ 16 := by
  cases op with
  | rx env skb => exact (skbHasFeedback_lt p skb).le
  | _ => exact Nat.zero_le _

/-- Nothing happens. -/
theorem step_prealloc_nil (plat : Platform) (p : Params) (kern : Kernel)
    (online : List C) (n : Node C) :
    step plat p kern online n (.prealloc 0 0 []) = .ok n := by
  show Except.ok (n.setCtx (n.tick.ctx.modifyTxc 0 fun txc => txc)) = .ok n
  rw [TxContext.modifyTxc_id]
  rfl

end Node

namespace Server

variable {C : Type} [DecidableEq C] [Fintype C] {plat : Platform} {p : Params}
  {kern : Kernel} {online : List C} {s s' : Server C}

/-- A server that has been given plain packets. -/
structure Sound (plat : Platform) (p : Params) (kern : Kernel) (s : Server C) : Prop where
  rx : s.rx.Sound p fun _ => True
  node : ∃ sent, (∀ e ∈ sent, e.2.2.Plain p) ∧ Node.Follows plat p kern sent s.node
  stocked : Node.Stocked p kern (2 ^ 16) s.node

theorem Sound.ctx (h : s.Sound plat p kern) : Node.Sound plat s.node.tick.ctx := by
  obtain ⟨sent, -, hfollows⟩ := h.node
  exact hfollows.sound

theorem Sound.host (h : s.Sound plat p kern) : s.host.Sound plat p := ⟨h.rx, h.ctx.pooled⟩

/-- The device of the server makes an operation, and its receive context stays in order. -/
structure Moves (plat : Platform) (p : Params) (kern : Kernel) (online : List C) (op : Node.Op C)
    (s s' : Server C) :
    Prop where
  node : s.node.step plat p kern online op = .ok s'.node
  time : op.time ≤ kern.ktime s.node.reads
  rx : s'.rx.Sound p fun _ => True

/-- An operation with which nothing happens to the device. -/
theorem moves_of_node_eq (hnode : s'.node = s.node) (hrx : s'.rx.Sound p fun _ => True) :
    Moves plat p kern online (.prealloc 0 0 []) s s' :=
  ⟨hnode ▸ Node.step_prealloc_nil plat p kern online s.node, Nat.zero_le _, hrx⟩

theorem Moves.sound {op : Node.Op C} (h : Moves plat p kern online op s s') (hp : p.Governable)
    (hplain : ∀ g, op.given = some g → g.2.Plain p) (hs : s.Sound plat p kern) :
    s'.Sound plat p kern := by
  obtain ⟨sent, hsent, hfollows⟩ := hs.node
  obtain ⟨new, hnew, hfollows'⟩ := Node.step_follows hp.maxTxRate_lt hfollows h.node
  refine ⟨h.rx, ⟨sent ++ new, fun e he => ?_, hfollows'⟩, ?_⟩
  · rcases List.mem_append.1 he with he | he
    · exact hsent e he
    · have hmem : e.2 ∈ op.given.toList := hnew ▸ List.mem_map_of_mem he
      exact hplain e.2 (Option.mem_toList.1 hmem)
  · exact Node.step_stocked hp.maxTxRate_lt (by decide) hp.maxBurst_lt hp.rfairInitial_le
      hp.minBurst_ge hs.ctx h.node h.time (op.carried_le p) hs.stocked

theorem init_sound (hp : p.Governable) (plat : Platform) (kern : Kernel) (now : ℕ) :
    (init p now : Server C).Sound plat p kern :=
  ⟨RxContext.init_sound hp.toSane _ now now,
    ⟨[], fun _ he => absurd he List.not_mem_nil, Node.init_follows hp.maxTxRate_lt plat kern now⟩,
    Node.init_stocked p kern _ now⟩

/-! ### What happens to a server -/

/-- The packet that the kernel gives to `iso_enqueue`. -/
def Op.given : Op C → Option (C × Skb)
  | .enqueue c skb _ => some (c, skb)
  | _ => none

omit [Fintype C] in
/-- A command does to the tx context what one of its commands does, or nothing. -/
theorem command_tx {h h' : Host C} {now : ℕ} {cmd : Command} {fb : Option Skb}
    (hstep : h.step plat p online (cmd.op now) = .ok (fb, h')) :
    h'.tx = h.tx ∨ ∃ op : TxContext.Op, op.Keeps ∧ op.time ≤ now ∧ h'.tx = h.tx.step plat p op := by
  cases cmd with
  | createTxc kmalloc rounds klass =>
    cases hstep
    exact Or.inr ⟨.createTxc now kmalloc rounds klass, trivial, le_rfl, rfl⟩
  | setTxcWeight klass weight =>
    cases hstep
    exact Or.inr ⟨.setTxcWeight klass weight, trivial, Nat.zero_le _, rfl⟩
  | setTxcRate klass rate =>
    cases hstep
    exact Or.inr ⟨.setTxcRate klass rate, trivial, Nat.zero_le _, rfl⟩
  | createVq | setVqWeight | setVqRate =>
    obtain ⟨rx, -, hstep⟩ := bind_eq_ok hstep
    cases hstep
    exact Or.inl rfl
  | assocTxcVq txclass vqclass =>
    replace hstep : pure (none, (h.isoSysAssocTxcVq plat txclass vqclass).2) =
        Except.ok (fb, h') := hstep
    cases hstep
    rw [Host.isoSysAssocTxcVq]
    split
    · exact Or.inr ⟨.assocTxcVq txclass _, trivial, Nat.zero_le _, rfl⟩
    · exact Or.inl rfl
  | recomputeDev =>
    obtain ⟨rx, -, hstep⟩ := bind_eq_ok hstep
    cases hstep
    exact Or.inr ⟨.recomputeDev, trivial, Nat.zero_le _, rfl⟩

theorem onNode_moves {op : Node.Op C} (hs : s.Sound plat p kern)
    (hstep : s.onNode plat p kern online op = .ok s') (htime : op.time ≤ kern.ktime s.node.reads) :
    Moves plat p kern online op s s' := by
  obtain ⟨node, hnode, hstep⟩ := bind_eq_ok hstep
  cases hstep
  exact ⟨hnode, htime, hs.rx⟩

theorem command_moves (hp : p.Governable) (hs : s.Sound plat p kern) {cmd : Command}
    (hstep : s.step plat p kern online (.command cmd) = .ok s') :
    ∃ op, Moves plat p kern online op s s' ∧ op.given = none ∧ ∀ env skb, op ≠ .rx env skb := by
  obtain ⟨⟨fb, h⟩, hcmd, hstep⟩ := bind_eq_ok hstep
  cases hstep
  have hrx := ((Host.step_ends hp.toSane hs.host online _).of_eq_ok hcmd).rx
  rcases command_tx hcmd with htx | ⟨op, hkeeps, htime, htx⟩
  · refine ⟨_, moves_of_node_eq ?_ hrx, rfl, fun env skb hop => ?_⟩
    · show s.node.setCtx h.tx = s.node
      rw [htx]
      rfl
    · cases hop
  · refine ⟨.command op hkeeps, ⟨?_, htime, hrx⟩, rfl, fun env skb hop => ?_⟩
    · show Except.ok (s.node.setCtx (s.node.tick.ctx.step plat p op)) = .ok (s.node.setCtx h.tx)
      rw [htx]
      rfl
    · cases hop

theorem step_moves (hp : p.Governable) (hs : s.Sound plat p kern) {op : Op C}
    (hstep : s.step plat p kern online op = .ok s') :
    ∃ op', Moves plat p kern online op' s s' ∧ op'.given = op.given ∧ ∀ env skb,
    op' ≠ .rx env skb := by
  cases op with
  | enqueue c skb lock =>
    refine ⟨_, onNode_moves hs hstep (Nat.zero_le _), rfl, fun env skb hop => ?_⟩
    cases hop
  | command cmd => exact command_moves hp hs hstep
  | prealloc k rounds =>
    refine ⟨_, onNode_moves hs hstep le_rfl, rfl, fun env skb hop => ?_⟩
    cases hop
  | timeout c | tasklet c =>
    refine ⟨_, onNode_moves hs hstep (Nat.zero_le _), rfl, fun env skb hop => ?_⟩
    cases hop

/-- A packet that arrives: its rate can change a limiter, and the answer is what the VQ of its
destination says. -/
theorem receive_moves (hp : p.Governable) (hs : s.Sound plat p kern) {env : RxEnv C}
    {skb : Skb} {fb : Option Skb} (hreceive : s.receive plat p kern online env skb = .ok (fb, s')) :
    (∃ op, Moves plat p kern online op s s' ∧ op.given = none ∧ ∀ env' skb',
      op = .rx env' skb' → skb' = skb) ∧
      ∀ answer, fb = some answer → Host.Answers plat p skb answer s'.rx := by
  unfold receive at hreceive
  split_ifs at hreceive
  swap
  · cases hreceive
    refine ⟨⟨_, moves_of_node_eq rfl hs.rx, rfl, fun env' skb' hop => ?_⟩, fun answer hanswer => ?_⟩
    · cases hop
    · cases hanswer
  obtain ⟨⟨out, h⟩, hrx, hreceive⟩ := bind_eq_ok hreceive
  obtain ⟨node, hnode, hreceive⟩ := bind_eq_ok hreceive
  cases hreceive
  have hsound := ((Host.isoRx_ends hp.toSane hs.host online _ skb).of_eq_ok hrx).1.rx
  refine ⟨?_, fun answer hanswer => ?_⟩
  · unfold rxNode at hnode
    rcases hfind : s.rx.isoVqFind plat (isoRxClassify skb) with _ | v
    · rw [hfind] at hnode
      cases hnode
      refine ⟨_, moves_of_node_eq rfl hsound, rfl, fun env' skb' hop => ?_⟩
      cases hop
    · rw [hfind] at hnode
      refine ⟨.rx _ skb, ⟨hnode, Nat.zero_le _, hsound⟩, rfl, fun env' skb' hop => ?_⟩
      cases hop
      rfl
  · have hfeedback : out.feedback = some (some answer) := by
      cases hout : out.feedback with
      | none =>
        rw [hout] at hanswer
        cases hanswer
      | some x =>
        rw [hout] at hanswer
        exact congrArg some hanswer
    exact Host.isoRx_answers hp.toSane hs.host hrx hfeedback

/-- The device and the receive context agree on what `iso_rx` does. -/
theorem isoRx_host (hp : p.Governable) (hs : s.Sound plat p kern) {env : RxEnv C}
    {skb : Skb} {fb : Option Skb} (hreceive : s.isoRx plat p kern online env skb = .ok (fb, s')) :
    ∃ out, s.host.isoRx plat p online { env with rateNow := kern.ktime s.node.reads } skb = .ok
      (out, s'.host) := by
  obtain ⟨⟨out, h⟩, hrx, hreceive⟩ := bind_eq_ok hreceive
  obtain ⟨node, hnode, hreceive⟩ := bind_eq_ok hreceive
  cases hreceive
  refine ⟨out, hrx.trans ?_⟩
  suffices htx : h.tx = node.tick.ctx by
    show Except.ok (out, h) = .ok (out, ⟨h.rx, node.tick.ctx⟩)
    rw [← htx]
  unfold Host.isoRx at hrx
  obtain ⟨⟨vq, rx⟩, hreceive, hrx⟩ := bind_eq_ok hrx
  have hvq := ((RxContext.receive_ends hp.toSane hs.rx plat online skb fun v hv =>
    hs.rx.readyBut _ hv).of_eq_ok hreceive).1
  dsimp only at hvq hrx
  unfold rxNode at hnode
  rcases vq with _ | v
  · rw [← hvq] at hnode
    cases hnode
    cases hrx
    rfl
  rw [← hvq] at hnode
  rcases hk : s.node.tick.ctx.isoTxcFind plat (isoRxClassify skb) with _ | k
  · rw [show s.host.tx = s.node.tick.ctx from rfl, hk] at hrx
    dsimp only at hnode
    rw [Node.rx, hk] at hnode
    cases hnode
    cases hrx
    rfl
  · rw [show s.host.tx = s.node.tick.ctx from rfl, hk] at hrx
    obtain ⟨verdict, skb', txc', huse, hctx, -⟩ := Node.exists_of_rx hnode hk
    unfold Node.received at huse
    dsimp only at hrx huse
    generalize TxClass.isoStateGet plat env.stateNow (s.node.tick.ctx.txcs k) skb true
      (isoIsFeedbackMarked p skb) env.writelock = got at hrx huse
    obtain ⟨state, txc⟩ := got
    dsimp only at hrx huse
    rw [huse] at hrx
    rw [hctx]
    exact Host.finish_tx hrx

/-! ### What a server transmits -/

omit [DecidableEq C] [Fintype C] in
theorem Rl.Event.eq_xmit_of_transmitted? {K D : Type} {e : Rl.Event K D C} {skb : Skb}
    (h : e.transmitted? = some skb) :
    ∃ c, e = .xmit c skb := by
  cases e with
  | xmit c skb' =>
    cases h
    exact ⟨c, rfl⟩
  | _ => cases h

theorem Sound.transmitted_plain (h : s'.Sound plat p kern) (hQ : Inherited kern (Skb.Plain p)) :
    ∀ skb ∈ s.transmitted s', skb.Plain p := by
  intro skb hmem
  obtain ⟨e, he, hskb⟩ := List.mem_filterMap.1 hmem
  obtain ⟨c, rfl⟩ := Rl.Event.eq_xmit_of_transmitted? hskb
  obtain ⟨sent, hsent, hfollows⟩ := h.node
  exact (hfollows.carries hQ hsent).sent c skb (List.mem_of_mem_drop he)

end Server

end EyeQ
