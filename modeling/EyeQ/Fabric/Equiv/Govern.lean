import EyeQ.Fabric.Equiv.Server

/-!
# Receivers govern their senders

`runFrom_governed`: while the VQs of a destination advertise at most the rate `R`, a limiter through
which packets are sent to it transmits at most what `R` allows, up to a constant.  This holds in any
fabric of servers, whatever happens to the packets in flight and whatever else the servers do.

The destination of a limiter is known up to the chain of the hash table of states: `iso_state_get`
takes the first state of a chain for that of any address on it.  So all VQs of such addresses have
to advertise at most `R`.
-/

namespace EyeQ

open Machine Rl

/-- The segments of a packet that carries no rate carry none. -/
def Site.SegmentsPlain {H C : Type} (S : Site H C) : Prop :=
  ∀ h pkt segs, (S.kern h).skbGsoSegment pkt = some segs → pkt.Plain S.p →
  ∀ skb ∈ segs, skb.Plain S.p

theorem Site.SegmentsPlain.inherited {H C : Type} {S : Site H C} (h : S.SegmentsPlain) (a : H) :
    Inherited (S.kern a) (Skb.Plain S.p) :=
  ⟨fun _ _ hplain => hplain, h a⟩

namespace Fabric

variable {H C : Type} [DecidableEq H] [DecidableEq C] [Fintype C] {S : Site H C}
  {fab fab' : Fabric H C}

/-- The kernel sends no feedback packet of its own. -/
def Op.Plain (p : Params) : Op H C → Prop
  | .server _ op => ∀ g ∈ op.given, g.2.Plain p
  | _ => True

instance (p : Params) : DecidablePred (Op.Plain p : Op H C → Prop)
  | .server _ op => inferInstanceAs (Decidable (∀ g ∈ op.given, _))
  | .deliver _ _ _ => inferInstanceAs (Decidable True)
  | .lose _ => inferInstanceAs (Decidable True)
  | .duplicate _ => inferInstanceAs (Decidable True)
  | .mark _ => inferInstanceAs (Decidable True)

/-! ### The servers -/

def Sound (S : Site H C) (fab : Fabric H C) : Prop :=
  ∀ a, (fab.server a).Sound S.plat S.p (S.kern a)

/-- What happens to one of the servers: a rate that reaches it was in flight. -/
structure Moves (S : Site H C) (fab : Fabric H C) (a : H) (s : Server C) (op : Node.Op C) :
    Prop where
  moves : Server.Moves S.plat S.p (S.kern a) (S.online a) op (fab.server a) s
  plain : ∀ g, op.given = some g → g.2.Plain S.p
  flight : ∀ env skb, op = .rx env skb → ∃ pkt ∈ fab.wire, skb = pkt.pulled

omit [DecidableEq H] in
theorem moves_self (hs : fab.Sound S) (a : H) :
    Moves S fab a (fab.server a) (.prealloc 0 0 []) := by
  refine ⟨Server.moves_of_node_eq rfl (hs a).rx, fun g hg => ?_, fun env skb hop => ?_⟩
  · cases hg
  · cases hop

/-- One server changes, or none. -/
theorem moves_update (hs : fab.Sound S) {h : H} {s : Server C}
    (hmoves : ∃ op, Moves S fab h s op) (a : H) :
    ∃ op, Moves S fab a (Function.update fab.server h s a) op := by
  by_cases ha : a = h
  · subst ha
    rw [Function.update_self]
    exact hmoves
  · rw [Function.update_of_ne ha]
    exact ⟨_, moves_self hs a⟩

theorem exists_of_deliver {n : ℕ} {h : H} {env : RxEnv C} {skb : Skb} (hn : fab.wire[n]? = some skb)
    (hstep : step S fab (.deliver n h env) = .ok fab') :
    ∃ b fb s, (skb.isIp → b = S.home skb.daddr) ∧
      (fab.server b).receive S.plat S.p (S.kern b) (S.online b) env skb.pulled = .ok (fb, s) ∧
        fab' = ⟨Function.update fab.server b s, fab.wire.eraseIdx n ++ fb.toList⟩ := by
  rw [step, hn] at hstep
  obtain ⟨⟨fb, s⟩, hreceive, hstep⟩ := bind_eq_ok hstep
  cases hstep
  exact ⟨_, fb, s, fun hip => if_pos hip, hreceive, rfl⟩

theorem step_moves (hp : S.p.Governable) (hs : fab.Sound S) {op : Op H C} (hop : op.Plain S.p)
    (hstep : step S fab op = .ok fab') (a : H) : ∃ op', Moves S fab a (fab'.server a) op' := by
  cases op with
  | server h op =>
    obtain ⟨s, hserver, hstep⟩ := bind_eq_ok hstep
    cases hstep
    obtain ⟨op', hmoves, hgiven, hrx⟩ := Server.step_moves hp (hs h) hserver
    refine moves_update hs ⟨op', hmoves, fun g hg => hop g (hgiven ▸ hg), fun env skb heq => ?_⟩ a
    exact absurd heq (hrx env skb)
  | deliver n h env =>
    rcases hn : fab.wire[n]? with _ | skb
    · rw [step, hn] at hstep
      cases hstep
      exact ⟨_, moves_self hs a⟩
    · obtain ⟨b, fb, s, -, hreceive, rfl⟩ := exists_of_deliver hn hstep
      obtain ⟨⟨op', hmoves, hgiven, hrx⟩, -⟩ := Server.receive_moves hp (hs b) hreceive
      refine moves_update hs ⟨op', hmoves, fun g hg => ?_, fun env' skb' heq => ?_⟩ a
      · rw [hgiven] at hg
        cases hg
      · exact ⟨skb, List.mem_of_getElem? hn, hrx env' skb' heq⟩
  | lose | duplicate | mark =>
    cases hstep
    exact ⟨_, moves_self hs a⟩

theorem step_sound (hp : S.p.Governable) (hs : fab.Sound S) {op : Op H C} (hop : op.Plain S.p)
    (hstep : step S fab op = .ok fab') : fab'.Sound S := by
  intro a
  obtain ⟨op', h⟩ := step_moves hp hs hop hstep a
  exact h.moves.sound hp h.plain (hs a)

theorem runFrom_sound (hp : S.p.Governable) {ops : List (Op H C)} (hops : ∀ op ∈ ops, op.Plain S.p)
    (hrun : runFrom S ops = .ok fab) : fab.Sound S := by
  have hinit : (init S : Fabric H C).Sound S := fun a => Server.init_sound hp _ _ _
  have hends : Ends (Sound S) (fun _ => True) (runFrom S ops) :=
    runE_ends (step S) (fun fab op (hop : op.Plain S.p) hs => ends_of_ok fun _ hstep =>
      step_sound hp hs hop hstep) hinit hops
  exact hends.of_eq_ok hrun

/-! ### The rates in flight -/

/-- The two addresses are on one chain of the table of states. -/
def OnChain (plat : Platform) (x y : UInt32) : Prop :=
  TxClass.stateHash plat (plat.ntohl x) = TxClass.stateHash plat (plat.ntohl y)

/-- If a packet brings the source of `flow` a rate for the destination, the rate is at most `R`. -/
def Heard (S : Site H C) (R : ℕ) (flow fb : Skb) : Prop :=
  fb.isIp → fb.daddr = flow.saddr → OnChain S.plat fb.saddr flow.daddr → skbHasFeedback S.p fb ≤ R

/-- The VQs of the destination of `flow` advertise at most `R`; a feedback packet has 16 bits for
the rate. -/
def Advertised (S : Site H C) (R : ℕ) (flow : Skb) (fab : Fabric H C) : Prop :=
  ∀ x v, OnChain S.plat x flow.daddr → (fab.server (S.home x)).rx.isoVqFind S.plat x = some v →
    ((fab.server (S.home x)).rx.vqs v).feedbackRate % 2 ^ 16 ≤ R

variable {R : ℕ} {flow : Skb}

section

omit [DecidableEq H] [DecidableEq C] [Fintype C]

/-- That is so if no VQ at all advertises more. -/
theorem advertised_of_forall (h : ∀ a, ∀ b ∈ TxContext.txBuckets,
    ∀ v ∈ (fab.server a).rx.vqBucket b, ((fab.server a).rx.vqs v).feedbackRate % 2 ^ 16 ≤ R) :
    fab.Advertised S R flow :=
  fun _ v _ hfind => h _ _ (TxContext.classHash_mem_txBuckets ..) v
    (RxContext.mem_of_isoVqFind hfind)

theorem heard_of_plain {skb : Skb} (h : skb.Plain S.p) : Heard S R flow skb :=
  fun _ _ _ => (show skbHasFeedback S.p skb = 0 from h).trans_le (Nat.zero_le R)

/-- A VQ of the destination answers with what it advertises. -/
theorem heard_of_answers {pkt fb : Skb}
    (hans : Host.Answers S.plat S.p pkt fb (fab.server (S.home pkt.daddr)).rx)
    (hadv : fab.Advertised S R flow) : Heard S R flow fb := by
  obtain ⟨v, hfind, hrate⟩ := hans.rate
  intro _ _ hchain
  rw [hrate]
  exact hadv pkt.daddr v (hans.saddr ▸ hchain) hfind

end

theorem step_heard (hp : S.p.Governable) (hseg : S.SegmentsPlain) (hs : fab.Sound S) {op : Op H C}
    (hop : op.Plain S.p) (hstep : step S fab op = .ok fab') (hadv : fab'.Advertised S R flow)
    (hwire : ∀ skb ∈ fab.wire, Heard S R flow skb) : ∀ skb ∈ fab'.wire, Heard S R flow skb := by
  have hs' := step_sound hp hs hop hstep
  cases op with
  | server h op =>
    obtain ⟨s, hserver, hstep⟩ := bind_eq_ok hstep
    cases hstep
    intro skb hmem
    rcases List.mem_append.1 hmem with hmem | hmem
    · exact hwire skb hmem
    · have hsound : (Function.update fab.server h s h).Sound S.plat S.p (S.kern h) := hs' h
      rw [Function.update_self] at hsound
      exact heard_of_plain (hsound.transmitted_plain (hseg.inherited h) skb hmem)
  | deliver n h env =>
    rcases hn : fab.wire[n]? with _ | pkt
    · rw [step, hn] at hstep
      cases hstep
      exact hwire
    · obtain ⟨b, fb, s, hb, hreceive, rfl⟩ := exists_of_deliver hn hstep
      obtain ⟨-, hanswers⟩ := Server.receive_moves hp (hs b) hreceive
      intro skb hmem
      rcases List.mem_append.1 hmem with hmem | hmem
      · exact hwire skb (List.mem_of_mem_eraseIdx hmem)
      · -- the answer has the rate that the VQ advertises after the packet
        have hans := hanswers skb (Option.mem_toList.1 hmem)
        obtain rfl := hb hans.isIp
        have hserver : Function.update fab.server (S.home pkt.daddr) s (S.home pkt.daddr) = s :=
          Function.update_self ..
        rw [← hserver] at hans
        exact heard_of_answers hans hadv
  | lose n =>
    cases hstep
    exact fun skb hmem => hwire skb (List.mem_of_mem_eraseIdx hmem)
  | duplicate n =>
    cases hstep
    intro skb hmem
    rcases List.mem_append.1 hmem with hmem | hmem
    · exact hwire skb hmem
    · exact hwire skb (List.mem_of_getElem? (Option.mem_toList.1 hmem))
  | mark n =>
    cases hstep
    intro skb hmem
    obtain ⟨i, hi⟩ := List.mem_iff_getElem?.1 hmem
    dsimp only at hi
    rw [List.getElem?_modify] at hi
    obtain ⟨skb', hskb', rfl⟩ := Option.map_eq_some_iff.1 hi
    have hheard := hwire skb' (List.mem_of_getElem? hskb')
    split_ifs
    · exact hheard
    · exact hheard

/-! ### A limiter -/

/-- The limiter `j` of the class `k` on server `a` is that of `flow`, at a rate of at most `R`, and
nothing in flight raises it. -/
structure Tamed (S : Site H C) (R : ℕ) (a : H) (flow : Skb) (k j : ℕ) (fab : Fabric H C) :
    Prop where
  sound : fab.Sound S
  routes : Node.Routes S.plat (fab.server a).node.tick.ctx flow k j
  governed : Governed (S.kern a) R (.dest k j) (fab.server a).node.view
  wire : ∀ skb ∈ fab.wire, Heard S R flow skb

variable {a : H} {k j start stop : ℕ}

omit [DecidableEq H] [DecidableEq C] [Fintype C] in
theorem burst_lt (hp : S.p.Governable) (hR : R ≤ 2 ^ 16) : R * S.p.isoMaxBurstTimeUs < 2 ^ 32 :=
  (Nat.mul_le_mul_right _ hR).trans_lt hp.maxBurst_lt

theorem step_tamed (hp : S.p.Governable) (hseg : S.SegmentsPlain) (h2 : 2 ≤ R)
    (hR : R ≤ 2 ^ 16) {op : Op H C} (hop : op.Plain S.p) (hstep : step S fab op = .ok fab')
    (hadv : fab'.Advertised S R flow) (h : Tamed S R a flow k j fab)
    (hstart : start ≤ (S.kern a).ktime (fab.server a).node.reads)
    (hstop : (S.kern a).ktime (fab'.server a).node.reads ≤ stop) :
    Tamed S R a flow k j fab' ∧ Advances S.p (S.kern a) R start stop (.dest k j)
      (fab.server a).node.view (fab'.server a).node.view := by
  obtain ⟨op', hmoves⟩ := step_moves hp h.sound hop hstep a
  have hctx := (h.sound a).ctx
  -- a rate for the limiter has been in flight, from an address on the chain of the destination
  have hfeeds : Node.Feeds S.plat S.p (fab.server a).node.tick.ctx k j op' →
      op'.carried S.p ≤ R := by
    intro hfeeds
    cases op' with
    | rx env fb =>
      obtain ⟨hip, hdaddr, hchain⟩ := hctx.chain_of_feeds h.routes hfeeds
      obtain ⟨pkt, hmem, rfl⟩ := hmoves.flight env fb rfl
      exact h.wire pkt hmem hip hdaddr hchain
    | _ => exact absurd hfeeds id
  obtain ⟨-, hadvances⟩ := Node.step_advances hp.maxTxRate_lt h2
    (burst_lt hp hR) hctx hmoves.moves.node (hctx.lt_of_routes h.routes) h.governed
    hfeeds hstart hstop
  refine ⟨⟨step_sound hp h.sound hop hstep, ?_, hadvances.governed, ?_⟩, hadvances⟩
  · exact Node.step_routes hp.maxTxRate_lt (burst_lt hp (by decide)) hctx hmoves.moves.node h.routes
  · exact step_heard hp hseg h.sound hop hstep hadv h.wire

theorem run_tamed (hp : S.p.Governable) (hseg : S.SegmentsPlain) (h2 : 2 ≤ R) (hR : R ≤ 2 ^ 16)
    {win : List (Op H C)} (hwin : ∀ op ∈ win, op.Plain S.p)
    (hrun : runE (step S) fab win = .ok fab')
    (hadv : ∀ w, w <+: win → ∀ fab₁, runE (step S) fab w = .ok fab₁ → fab₁.Advertised S R flow)
    (h : Tamed S R a flow k j fab) (hstart : start ≤ (S.kern a).ktime (fab.server a).node.reads)
    (hstop : (S.kern a).ktime (fab'.server a).node.reads ≤ stop) :
    Advances S.p (S.kern a) R start stop (.dest k j) (fab.server a).node.view
      (fab'.server a).node.view := by
  induction win generalizing fab with
  | nil =>
    cases hrun
    exact h.governed.same ⟨rfl, rfl, rfl⟩ h.governed.rate le_rfl
  | cons op win ih =>
    obtain ⟨fab₁, hstep, hrest⟩ := bind_eq_ok hrun
    have hop := hwin op List.mem_cons_self
    have hadv₁ : fab₁.Advertised S R flow := by
      refine hadv [op] ⟨win, rfl⟩ fab₁ ?_
      show step S fab op >>= pure = .ok fab₁
      rw [hstep]
      rfl
    have hrest' := fun h₁ hstart₁ =>
      ih (fun op' hop' => hwin op' (List.mem_cons_of_mem op hop')) hrest
      (fun w hw fab₂ hw₂ => hadv (op :: w) (List.cons_prefix_cons.2 ⟨rfl, hw⟩) fab₂ (by
        show step S fab op >>= (fun fab₁ => runE (step S) fab₁ w) = .ok fab₂
        rw [hstep]
        exact hw₂)) h₁ hstart₁
    -- the step itself tells how far the clock is, and the rest of the run that it goes on
    obtain ⟨h₁, hfirst⟩ := step_tamed hp hseg h2 hR hop hstep hadv₁ h hstart le_rfl
    have hstart₁ : start ≤ (S.kern a).ktime (fab₁.server a).node.reads :=
      hstart.trans ((S.kern a).ktime_mono hfirst.reads)
    have hrun₁ := hrest' h₁ hstart₁
    have hstop₁ : (S.kern a).ktime (fab₁.server a).node.reads ≤ stop :=
      ((S.kern a).ktime_mono hrun₁.reads).trans hstop
    exact (step_tamed hp hseg h2 hR hop hstep hadv₁ h hstart hstop₁).2.trans hrun₁

/-- The bytes that the limiter has transmitted. -/
def bytesXmit (fab : Fabric H C) (a : H) (k j : ℕ) : ℕ :=
  ∑ c, (((fab.server a).node.tick.ctx.txcs k).rls j |>.queue c).bytesXmit

/-- **Receivers govern their senders.**  The run `pre` leads to a state in which packets like `flow`
take the limiter `j` of the class `k` on server `a`, which is at a rate of at most `R` (Mbit/s).
Then `win` takes from the time `t` to `t'` of that server (nanoseconds).  If in all states on the
way the VQs of the destination advertise at most `R`, the limiter transmits no more than what comes
at the rate `R`, what may be in the pool and in the hoards of its CPUs from before, and a packet for
each CPU. -/
theorem runFrom_governed (hp : S.p.Governable) (hseg : S.SegmentsPlain)
    (h2 : 2 ≤ R) (hR : R ≤ 2 ^ 16) {pre win : List (Op H C)}
    (hplain : ∀ op ∈ pre ++ win, op.Plain S.p) (hpre : runFrom S pre = .ok fab)
    (hwin : runE (step S) fab win = .ok fab')
    (hroute : Node.route S.plat (fab.server a).node.tick.ctx flow = .ok (some (k, j)))
    (hrate : (((fab.server a).node.tick.ctx.txcs k).rls j).rate ≤ R)
    (hwire : ∀ fb ∈ fab.wire, Heard S R flow fb)
    (hadv : ∀ w, w <+: win → ∀ fab₁, runE (step S) fab w = .ok fab₁ → fab₁.Advertised S R flow) :
    fab'.bytesXmit a k j ≤ fab.bytesXmit a k j
      + R * ((S.kern a).ktime (fab'.server a).node.reads - (S.kern a).ktime
        (fab.server a).node.reads) / 8000
      + (Fintype.card C + 2) * poolCap S.p (2 ^ 16) + Fintype.card C * maxSize := by
  have hs := runFrom_sound hp (fun op hop => hplain op (List.mem_append_left win hop)) hpre
  have hroutes := (hs a).ctx.route_iff.1 hroute
  obtain ⟨hgoverned, hstocked⟩ := (hs a).stocked k j ((hs a).ctx.lt_of_routes hroutes)
  have htamed : Tamed S R a flow k j fab := ⟨hs, hroutes, ⟨hrate, hgoverned.metered⟩, hwire⟩
  have hadvances := run_tamed hp hseg h2 hR
    (fun op hop => hplain op (List.mem_append_right pre hop)) hwin hadv htamed le_rfl le_rfl
  have hcap : poolCap S.p R ≤ poolCap S.p (2 ^ 16) := by
    unfold poolCap
    rw [Nat.shiftRight_eq_div_pow, Nat.shiftRight_eq_div_pow]
    exact max_le_max (Nat.div_le_div_right (Nat.mul_le_mul_right _ hR)) le_rfl
  exact TokenPool.spent_le_of_cap hcap (show 0 < 8000 by decide) hadvances.path hstocked

/-! ### Two servers -/

/-- Two servers, of which one has the address 2 and the other one all others. -/
def pair : Site Bool Unit :=
  ⟨Platform.x86, {}, fun _ => Kernel.steady, fun _ => [()], fun x => x = 2⟩

theorem pair_segmentsPlain : pair.SegmentsPlain := by
  intro h pkt segs hsegs
  cases hsegs

/-- A packet arrives at time `t`. -/
def envAt (t : ℕ) : RxEnv Unit := ⟨(), t, true, t, true, t, true, t, t, true, t, true, t, t, some t⟩

/-- The first packet makes the receiver send feedback, with which the sender makes a state for it.
The packets that follow go through the limiter of the state, and the feedback on the first of them
sets its rate. -/
def handshake : List (Op Bool Unit) :=
  [.server false (.command (.createTxc true [true] 1)),
    .server false (.command (.createVq true true 1)),
    .server true (.command (.createTxc true [true] 2)),
    .server true (.command (.createVq true true 2)),
    .server false (.enqueue () (Node.dataWith 1) true), .deliver 0 false (envAt 1000000),
    .deliver 0 false (envAt 0),
    .server false (.enqueue () (Node.dataWith 2) true),
    .server false (.enqueue () (Node.dataWith 3) true),
    .server false (.timeout ()), .server false (.tasklet ()), .deliver 0 false (envAt 2000000),
    .deliver 0 false (envAt 2500000), .deliver 0 false (envAt 2500000)]

/-- One more packet, its feedback, and the rate that is still in flight. -/
def exchange : List (Op Bool Unit) :=
  [.server false (.enqueue () (Node.dataWith 4) true), .deliver 1 false (envAt 3000000),
    .deliver 0 false (envAt 3000000)]

def afterHandshake : Fabric Bool Unit := endOr (init pair) (runFrom pair handshake)

def afterExchange : Fabric Bool Unit := endOr (init pair) (runE (step pair) afterHandshake exchange)

/-- No VQ of the two servers advertises more than `R`. -/
def ratesBelow (R : ℕ) (fab : Fabric Bool Unit) : Bool :=
  [false, true].all fun a => TxContext.txBuckets.all fun b =>
  ((fab.server a).rx.vqBucket b).all fun v =>
    ((fab.server a).rx.vqs v).feedbackRate % 2 ^ 16 ≤ R

theorem advertised_of_ratesBelow {fab : Fabric Bool Unit} (h : ratesBelow R fab = true) :
    fab.Advertised pair R flow := by
  refine advertised_of_forall fun a b hb v hv => ?_
  have ha : a ∈ [false, true] := by cases a <;> decide
  exact of_decide_eq_true (List.all_eq_true.1
    (List.all_eq_true.1 (List.all_eq_true.1 h a ha) b hb) v hv)

theorem runFrom_governed_exchange :
    (((afterHandshake.server false).node.tick.ctx.txcs 0).rls 0).rate = 22 ∧
      (((afterExchange.server false).node.tick.ctx.txcs 0).rls 0).rate = 32 ∧
      afterHandshake.bytesXmit false 0 0 = 2028 ∧ afterExchange.bytesXmit false 0 0 = 3042 ∧
      afterExchange.bytesXmit false 0 0 ≤ afterHandshake.bytesXmit false 0 0
        + 50 * (Kernel.steady.ktime (afterExchange.server false).node.reads
            - Kernel.steady.ktime (afterHandshake.server false).node.reads) / 8000
        + (Fintype.card Unit + 2) * poolCap {} (2 ^ 16) + Fintype.card Unit * maxSize := by
  have hwire : ∀ fb ∈ afterHandshake.wire, skbHasFeedback {} fb ≤ 50 := by decide +kernel
  have hrates : (exchange.inits.all fun w =>
      ratesBelow 50 (endOr (init pair) (runE (step pair) afterHandshake w))) =
      true := by decide +kernel
  have hroute : Node.route pair.plat (afterHandshake.server false).node.tick.ctx (Node.dataWith 0) =
      .ok (some (0, 0)) := by decide +kernel
  refine ⟨by decide +kernel, by decide +kernel, by decide +kernel, by decide +kernel, ?_⟩
  refine runFrom_governed (S := pair) (R := 50) Params.governable_default pair_segmentsPlain
    (by decide) (by decide)
    (by decide : ∀ op ∈ handshake ++ exchange, op.Plain {}) (eq_ok_endOr _ (by decide +kernel))
    (eq_ok_endOr _ (by decide +kernel)) hroute (by decide +kernel)
    (fun fb hmem _ _ _ => hwire fb hmem)
    fun w hw fab₁ hrun => ?_
  have hbelow := List.all_eq_true.1 hrates w ((List.mem_inits w exchange).2 hw)
  rw [hrun] at hbelow
  exact advertised_of_ratesBelow hbelow

end Fabric

end EyeQ
